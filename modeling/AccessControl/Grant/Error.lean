import AccessControl.Grant.Scope
import AccessControl.Text.Base64
import AccessControl.Text.Hex

/-! Why a stored grant cannot be read. -/

namespace AccessControl

/-- What is wrong with stored labels. -/
inductive LabelFault
  | emptyLabel
  /-- A byte that no unencoded label may hold. -/
  | foreignByte (byte : UInt8)
  | encoding (fault : Base64.Fault)
  deriving DecidableEq

/-- Why a grant cannot be read. -/
inductive GrantError
  | unknownId (scope : Scope) (id : UInt8)
  | unknownName (scope : Scope) (name : String)
  | invalidLabels (fault : LabelFault)
  deriving DecidableEq

def LabelFault.message : LabelFault → String
  | .emptyLabel => "empty authorization"
  | .foreignByte byte =>
    "invalid character 0x" ++ Hex.encode [byte] ++ " in legacy authorization"
  | .encoding fault => fault.message

def GrantError.message : GrantError → String
  | .unknownId scope id => s!"unknown {scope.word} permission id: {id}"
  | .unknownName scope name => s!"unknown {scope.word} permission name: {name}"
  | .invalidLabels fault => s!"invalid authorizations: {fault.message}"

end AccessControl
