/-! Why a token could not be made, read or checked. -/

namespace AccessControl

/-- Why a hasher gives no token. -/
inductive HashError
  /-- The token's algorithm is known, and the rest of its header is not. -/
  | malformed (detail : String)
  /-- The token names another algorithm. Only the tag is kept, since the rest may be sensitive. -/
  | unsupported (tag : String)
  /-- The stored bytes are no text. -/
  | invalidEncoding
  /-- The digest itself refused. -/
  | primitive (detail : String)
  deriving DecidableEq

namespace HashError

def message : HashError → String
  | malformed detail => s!"malformed crypt token: {detail}"
  | unsupported tag => s!"unsupported crypt algorithm: {tag}"
  | invalidEncoding => "crypt token is not valid UTF-8"
  | primitive detail => s!"crypt primitive failure: {detail}"

/-- Whether the stored token is at fault, and not the digest. -/
def isMalformed : HashError → Bool
  | malformed _ | unsupported _ | invalidEncoding => true
  | primitive _ => false

end HashError

end AccessControl
