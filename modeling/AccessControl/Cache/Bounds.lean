import AccessControl.Time

/-! How many entries a cache may hold, and how long an entry may lie idle. -/

namespace AccessControl

/-- What is wrong with bounds. -/
inductive BoundsFault
  | noEntries
  | noIdleTime
  | initialExceeds (initial maximum : Nat)
  deriving DecidableEq

/-- Why a cache cannot be set up. -/
inductive CacheError
  | invalidBounds (fault : BoundsFault)
  /-- There is nothing that could run a sweeper. -/
  | noRuntime
  deriving DecidableEq

def BoundsFault.message : BoundsFault → String
  | .noEntries => "max_entries must be at least 1"
  | .noIdleTime => "idle_timeout must be non-zero"
  | .initialExceeds initial maximum =>
    s!"initial_capacity {initial} exceeds max_entries {maximum}"

def CacheError.message : CacheError → String
  | .invalidBounds fault => s!"invalid cache bounds: {fault.message}"
  | .noRuntime => "no tokio runtime available to run the cache janitor"

/-- The limits of a cache. -/
structure Bounds where
  maxEntries : Nat
  /-- The places set aside from the start. -/
  initialCapacity : Nat
  /-- An entry that is not touched for this long has expired. -/
  idleTimeout : Duration
  deriving DecidableEq

namespace Bounds

/-- The places that are set aside where nothing else is said. -/
def defaultInitial : Nat := 4

/-- Bounds with as many places set aside as usual, and never more than may be used. -/
def ofLimits (maxEntries : Nat) (idleTimeout : Duration) : Bounds :=
  ⟨maxEntries, min defaultInitial maxEntries, idleTimeout⟩

def default : Bounds := ofLimits 64 (.ofSeconds 60)

def withInitialCapacity (bounds : Bounds) (initial : Nat) : Bounds :=
  { bounds with initialCapacity := initial }

/-- Whether a cache can be kept within the bounds. -/
def validate (bounds : Bounds) : Except CacheError Unit :=
  if bounds.maxEntries = 0 then .error (.invalidBounds .noEntries)
  else if bounds.idleTimeout.nanos = 0 then .error (.invalidBounds .noIdleTime)
  else if bounds.maxEntries < bounds.initialCapacity then
    .error (.invalidBounds (.initialExceeds bounds.initialCapacity bounds.maxEntries))
  else .ok ()

/-- The idle time on the counter that the cache reads. -/
def idleReading (bounds : Bounds) : Nat := Clock.reading bounds.idleTimeout.nanos

end Bounds

end AccessControl
