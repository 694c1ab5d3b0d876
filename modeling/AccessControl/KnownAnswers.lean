import AccessControl.Credential.Header
import AccessControl.Grant.Record
import AccessControl.Text.Hex

/-!
Known answers: tokens and records that have been stored, and have to come out the same for as long
as anyone reads them.
-/

namespace AccessControl.KnownAnswers

/-! ### Tokens -/

/-- A secret, a header and the token that they make. -/
structure StoredToken where
  name : String
  secret : String
  setting : String
  expected : String

def tokens : List StoredToken := [
  ⟨"default rounds", "Hello world!", "$6$saltstring",
    "$6$saltstring$svn8UoSVapNtMuq1ukKS4tPQd8iKwSMHWjl/O817G3uBnIFNjnQJuesI68u4OTLi" ++
      "BFdcbYEdFCoEOfaS35inz1"⟩,
  ⟨"rounds field, salt truncated to 16", "Hello world!",
    "$6$rounds=10000$saltstringsaltstring",
    "$6$rounds=10000$saltstringsaltst$OW1/O6BYHV6BcXZu8QVeXbDWra3Oeqh0sbHbbMCVNSnCM/" ++
      "UrjmM0Dp8vOuZeHBy/YTBmSK6H9qs/y3RnOaw5v."⟩,
  ⟨"sha256 stored token", "Hello world!", "$5$saltstring",
    "$5$saltstring$5B8vYYiY.CVt1RlTTf8KbXBH3hsxY/GNooZaBBGWEc5"⟩]

/-- The token that the setting makes, or why there is none. -/
def StoredToken.computed (t : StoredToken) : String :=
  match Header.parse t.setting >>= fun header => header.token (Utf8.encode t.secret) with
  | .ok token => token
  | .error error => "error: " ++ error.message

/-- Whether the token comes out as it was stored. -/
def StoredToken.holds (t : StoredToken) : Bool := t.computed == t.expected

/-! ### Records -/

/-- The names of permissions and the record that they make, in hexadecimal. -/
structure StoredRecord where
  name : String
  scope : Scope
  permissions : List String
  expected : String

def records : List StoredRecord := [
  ⟨"system admin", .system, ["SYSTEM", "CREATE_USER", "GRANT"], "000407"⟩,
  ⟨"system delegation", .system, ["OBTAIN_DELEGATION_TOKEN", "ALTER_NAMESPACE"], "0a0b"⟩,
  ⟨"table reader", .tables, ["READ", "GET_SUMMARIES"], "0208"⟩,
  ⟨"table owner", .tables, ["DROP_TABLE", "GRANT", "ALTER_TABLE", "WRITE", "READ"], "0203050607"⟩,
  ⟨"namespace empty", .namespaces, [], ""⟩,
  ⟨"namespace writer", .namespaces, ["WRITE", "READ", "BULK_IMPORT"], "000107"⟩]

/-- The record of the permissions of given names. -/
def recordOf (P : Type) [Permission P] (names : List String) : Except GrantError Bytes := do
  return PermissionSet.encode (← names.mapM (Permission.ofName P))

/-- The record that the names make, in hexadecimal, or why there is none. -/
def StoredRecord.computed (r : StoredRecord) : String :=
  let record := match r.scope with
    | .system => recordOf SystemPermission r.permissions
    | .tables => recordOf TablePermission r.permissions
    | .namespaces => recordOf NamespacePermission r.permissions
  match record with
  | .ok bytes => Hex.encode bytes
  | .error error => "error: " ++ error.message

end AccessControl.KnownAnswers
