import AccessControl.Verifier.Basic

/-!
Sample users for trying out a verifier, with a hasher that counts its calls and makes tokens of the
least number of rounds.
-/

namespace AccessControl.Enrollment

/-- A sample user. -/
structure User where
  name : String
  password : String
  token : Token

/-- How the tokens of sample users are made. -/
def policy : Policy := Policy.default.withRounds 1000

/-- The hasher of sample users. The state begins with the number of its calls. -/
def hasher {σ : Type} (source : SaltSource σ) : Hasher (Nat × σ) := (policy.hasher source).counting

variable {σ : Type}

/-- The calls of the hasher so far. -/
def calls (v : Verifier (Nat × σ)) : Nat := v.hashing.1

/-- The verifier with its calls counted from zero again. -/
def resetCalls (v : Verifier (Nat × σ)) : Verifier (Nat × σ) :=
  { v with hashing := (0, v.hashing.2) }

/-- The sample user of a number. -/
def enroll (v : Verifier σ) (number : Nat) : Except Error User × Verifier σ :=
  let password := s!"password-{number}"
  let (created, v) := v.createCredential (Utf8.encode password)
  (created.map fun token => ⟨s!"user-{number}", password, token⟩, v)

/-- The sample users of some numbers, in order. -/
def enrollAll (v : Verifier σ) : List Nat → Except Error (List User) × Verifier σ
  | [] => (.ok [], v)
  | number :: numbers =>
    match enroll v number with
    | (.error error, v) => (.error error, v)
    | (.ok user, v) =>
      let (users, v) := enrollAll v numbers
      (users.map (user :: ·), v)

/-- A check of a user's own password. -/
def checkPassword (v : Verifier σ) (now : Nat) (user : User) : Bool × Verifier σ :=
  v.verify now now (Utf8.encode user.password) user.token.bytes

end AccessControl.Enrollment
