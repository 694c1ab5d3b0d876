import AccessControl.Cache.Bounds
import AccessControl.Credential.HashError
import AccessControl.Grant.Error
import AccessControl.Json.Error

/-! Everything that can go wrong, outside of a check: a check that cannot be made is a refusal. -/

namespace AccessControl

/-- Why something could not be done. -/
inductive Error
  | credential (error : HashError)
  | grant (error : GrantError)
  | cache (error : CacheError)
  | document (error : Json.Error)
  /-- A background sweep without a period. -/
  | noSweepPeriod
  deriving DecidableEq

def Error.message : Error → String
  | .credential error => "crypt error: " ++ error.message
  | .grant error => "permission error: " ++ error.message
  | .cache error => "cache error: " ++ error.message
  | .document error => "configuration parse error: " ++ error.message
  | .noSweepPeriod => "invalid configuration: janitor_interval_ms must be non-zero"

end AccessControl
