import AccessControl.Verifier.Error

/-!
The configuration of a verifier: the bounds of its cache and the period of the background sweep,
in numbers of 64 bits as they are written in documents.
-/

namespace AccessControl

/-- The configuration of a verifier. -/
structure Config where
  maxEntries : UInt64
  initialCapacity : UInt64
  /-- A check that is not used for so many milliseconds is forgotten. -/
  idleTimeoutMs : UInt64
  /-- The milliseconds between two sweeps, if there are any. -/
  sweepIntervalMs : Option UInt64
  deriving DecidableEq

namespace Config

def default : Config := ⟨64, 4, 60000, none⟩

/-- The whole milliseconds of a span, up to the largest number of 64 bits. -/
def wholeMillis (d : Duration) : UInt64 := UInt64.ofNat (min d.millis (UInt64.size - 1))

/-! ### Building -/

/-- The configuration with another number of entries, and no more places set aside than that. -/
def withMaxEntries (c : Config) (maxEntries : UInt64) : Config :=
  { c with maxEntries, initialCapacity := min c.initialCapacity maxEntries }

def withIdleTimeout (c : Config) (d : Duration) : Config :=
  { c with idleTimeoutMs := wholeMillis d }

def withSweepInterval (c : Config) (d : Duration) : Config :=
  { c with sweepIntervalMs := some (wholeMillis d) }

/-! ### Reading off -/

/-- The bounds of the cache. -/
def bounds (c : Config) : Bounds :=
  (Bounds.ofLimits c.maxEntries.toNat (.ofMillis c.idleTimeoutMs.toNat)).withInitialCapacity
    c.initialCapacity.toNat

/-- The period of the sweep. -/
def sweepPeriod (c : Config) : Option Duration :=
  c.sweepIntervalMs.map fun millis => .ofMillis millis.toNat

/-- Whether a verifier can be set up. -/
def validate (c : Config) : Except Error Unit :=
  match c.bounds.validate with
  | .error error => .error (.cache error)
  | .ok () => if c.sweepIntervalMs = some 0 then .error .noSweepPeriod else .ok ()

end Config

end AccessControl
