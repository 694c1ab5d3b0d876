import AccessControl.Cache.Run

/-!
Sweeping in the background. A sweeper started at some time sweeps the cache at that time plus each
positive multiple of its period, and not at the start itself; without a period it cannot run. It
holds no claim on the cache: at the first tick after the cache is gone it ends by itself.
-/

namespace AccessControl

/-- A sweeper, on the same time as the cache that it was started for. -/
structure Sweeper where
  started : Nat
  period : Duration
  running : Bool

namespace Sweeper

/-- A sweeper started now. One whose period is zero ends at once. -/
def start (now : Nat) (period : Duration) : Sweeper := ⟨now, period, period.nanos != 0⟩

def stop (s : Sweeper) : Sweeper := { s with running := false }

/-- The ticks that fall after one time and not after another, in order. -/
def ticks (s : Sweeper) (after upTo : Nat) : List Nat :=
  let first := (after - s.started) / s.period.nanos + 1
  let last := (upTo - s.started) / s.period.nanos
  (List.range' first (last + 1 - first)).map fun count => s.started + count * s.period.nanos

variable {κ ν : Type} [DecidableEq κ]

/-- The sweeps at given times. -/
def sweepAt (times : List Nat) (c : Cache κ ν) : Cache κ ν :=
  times.foldl (fun c time => (c.sweep time).2) c

/-- What a sweeper does to the cache, if there is one left, between two times. -/
def advance (s : Sweeper) (after upTo : Nat) : Option (Cache κ ν) → Sweeper × Option (Cache κ ν)
  | none => (if (s.ticks after upTo).isEmpty then s else s.stop, none)
  | some c => (s, some (if s.running then sweepAt (s.ticks after upTo) c else c))

end Sweeper

/-! ### A cache with a sweeper -/

/-- A cache, as long as it is there, with the handle of a sweeper and the time. -/
structure Attended (κ ν : Type) where
  now : Nat
  cache : Option (Cache κ ν)
  sweeper : Option Sweeper

namespace Attended

variable {κ ν : Type} [DecidableEq κ]

/-- A new cache without a sweeper. -/
def ofBounds (bounds : Bounds) : Attended κ ν := ⟨0, some (.empty bounds), none⟩

/-- Time passes, and the sweeper does its work. -/
def wait (a : Attended κ ν) (d : Duration) : Attended κ ν :=
  match a.sweeper with
  | none => { a with now := a.now + d.nanos }
  | some s =>
    let (s, cache) := s.advance a.now (a.now + d.nanos) a.cache
    ⟨a.now + d.nanos, cache, some s⟩

/-- One operation of the cache, if there still is one. -/
def act (a : Attended κ ν) (op : Cache.Op κ ν) : Option (Cache.Answer ν) × Attended κ ν :=
  match a.cache with
  | none => (none, a)
  | some c => let (answer, c) := c.step a.now op; (some answer, { a with cache := some c })

/-- Starts a sweeper in place of the one before, given something that can run it. -/
def startSweeper (a : Attended κ ν) (runtime : Bool) (period : Duration) :
    Except CacheError (Attended κ ν) :=
  if runtime then .ok { a with sweeper := some (.start a.now period) } else .error .noRuntime

/-- Whether the sweeper is running; nothing if there is no handle. -/
def sweeperRunning (a : Attended κ ν) : Option Bool := a.sweeper.map Sweeper.running

/-- Stops the sweeper and keeps its handle. -/
def stopSweeper (a : Attended κ ν) : Attended κ ν := { a with sweeper := a.sweeper.map .stop }

/-- Gives up the handle, which stops the sweeper. -/
def dropSweeper (a : Attended κ ν) : Attended κ ν := { a with sweeper := none }

/-- Gives up the cache. -/
def dropCache (a : Attended κ ν) : Attended κ ν := { a with cache := none }

end Attended

end AccessControl
