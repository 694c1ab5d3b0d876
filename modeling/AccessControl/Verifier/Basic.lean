import AccessControl.Cache.Sweeper
import AccessControl.Credential.CacheKey
import AccessControl.Credential.Hasher
import AccessControl.Credential.Token
import AccessControl.Verifier.Config

/-!
The verifier: checks secrets against stored tokens and remembers successes for a while, so that the
slow hash is not repeated. Successes are remembered under the pair of secret and stored token, and
what is remembered is the token that the hash gave; so a stored token that has changed finds
nothing that was remembered for the one before.

Times are nanoseconds since the verifier was set up. A check reads the time twice: when it looks
for a remembered success, and when it remembers one.
-/

namespace AccessControl

/-- A verifier with a hasher over the states `σ`. -/
structure Verifier (σ : Type) where
  config : Config
  hasher : Hasher σ
  /-- The state of the hasher. -/
  hashing : σ
  /-- What the keys of the cache are derived under. -/
  keySecret : Bytes
  cache : Cache CacheKey String
  sweeper : Option Sweeper

namespace Verifier

variable {σ : Type}

/-! ### Setting up -/

/-- A verifier at time zero. A sweeper needs something that can run it. -/
def setUp (config : Config) (hasher : Hasher σ) (hashing : σ) (keySecret : Bytes)
    (runtime : Bool) : Except Error (Verifier σ) :=
  match config.validate with
  | .error error => .error error
  | .ok () =>
    match config.sweepPeriod, runtime with
    | some _, false => .error (.cache .noRuntime)
    | period, _ =>
      .ok ⟨config, hasher, hashing, keySecret, .empty config.bounds, period.map (.start 0)⟩

/-! ### Credentials -/

/-- A token for a new secret. Nothing is remembered. -/
def createCredential (v : Verifier σ) (secret : Bytes) : Except Error Token × Verifier σ :=
  let (answer, hashing) := v.hasher.crypt secret none v.hashing
  let v := { v with hashing }
  match answer with
  | .ok text => (.ok ⟨text⟩, v)
  | .error error => (.error (.credential error), v)

/-- The key under which a success is remembered. -/
def key (v : Verifier σ) (secret stored : Bytes) : CacheKey :=
  CacheKey.derive v.keySecret secret stored

/-- A check by the hash. A success is remembered; a stored token that is no text, that the hasher
refuses, or that comes out differently is a failure. -/
def check (v : Verifier σ) (now : Nat) (secret stored : Bytes) : Bool × Verifier σ :=
  match Utf8.decode? stored with
  | none => (false, v)
  | some text =>
    let (answer, hashing) := v.hasher.crypt secret (some text) v.hashing
    let v := { v with hashing }
    match answer with
    | .error _ => (false, v)
    | .ok fresh =>
      if sameBytes stored (Utf8.encode fresh) then
        (true, { v with cache := v.cache.insert now (v.key secret stored) fresh })
      else (false, v)

/-- Whether a secret fits a stored token. What is remembered under the key counts if it is the
stored token itself; anything else there is forgotten, and the hash decides. -/
def verify (v : Verifier σ) (asked answered : Nat) (secret stored : Bytes) : Bool × Verifier σ :=
  let key := v.key secret stored
  match v.cache.get asked key with
  | (none, cache) => check { v with cache } answered secret stored
  | (some remembered, cache) =>
    if sameBytes stored (Utf8.encode remembered) then (true, { v with cache })
    else
      let (_, cache) := cache.invalidateIf key fun current => current == remembered
      check { v with cache } answered secret stored

/-! ### The memory -/

/-- Drops what has expired. -/
def sweep (v : Verifier σ) (now : Nat) : Verifier σ := { v with cache := (v.cache.sweep now).2 }

/-- How many successes are remembered, without those that have expired. -/
def cacheSize (v : Verifier σ) (now : Nat) : Nat × Verifier σ :=
  let v := v.sweep now
  (v.cache.size, v)

/-- Forgets every success. -/
def clearCache (v : Verifier σ) : Verifier σ := { v with cache := v.cache.clear }

/-- Stops the sweeper and forgets every success. -/
def shutdown (v : Verifier σ) : Verifier σ := { v with sweeper := none, cache := v.cache.clear }

/-- What the sweeper does between two times. -/
def advance (v : Verifier σ) (after upTo : Nat) : Verifier σ :=
  match v.sweeper with
  | none => v
  | some s => { v with cache := Sweeper.sweepAt (s.ticks after upTo) v.cache }

end Verifier

end AccessControl
