/-! What permissions apply to. -/

namespace AccessControl

/-- What a permission applies to. -/
inductive Scope
  | system
  | tables
  | namespaces
  deriving DecidableEq

namespace Scope

def all : List Scope := [system, tables, namespaces]

/-- The word that errors use. -/
def word : Scope → String
  | system => "system"
  | tables => "table"
  | namespaces => "namespace"

/-- The word that documents use. -/
def variant : Scope → String
  | system => "System"
  | tables => "Table"
  | namespaces => "Namespace"

end Scope

end AccessControl
