import AccessControl.Grant.Permission
import AccessControl.Json.Variant

/-! Permissions and scopes in documents, where they go by their spellings. -/

namespace AccessControl

/-- The permission that a document holds. -/
def Permission.ofDocument (P : Type) [Permission P] (document : String) : Except Json.Error P :=
  Json.readDocument
    (Json.readVariant ((Permission.all : List P).map fun p => (Permission.variant p, p))) document

/-- The document of a permission. -/
def Permission.document {P : Type} [Permission P] (p : P) : String :=
  "\"" ++ Permission.variant p ++ "\""

/-- The scope that a document holds. -/
def Scope.ofDocument (document : String) : Except Json.Error Scope :=
  Json.readDocument (Json.readVariant (Scope.all.map fun s => (s.variant, s))) document

end AccessControl
