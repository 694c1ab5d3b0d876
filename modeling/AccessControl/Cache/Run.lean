import AccessControl.Cache.Store

/-! Sequences of cache operations at given times, with the answer of each. -/

namespace AccessControl.Cache

variable {κ ν : Type}

/-- What may be asked of a cache. -/
inductive Op (κ ν : Type)
  | get (key : κ)
  | contains (key : κ)
  | insert (key : κ) (value : ν)
  | invalidate (key : κ)
  | invalidateIf (key : κ) (condition : ν → Bool)
  | clear
  | sweep
  | size
  | isEmpty

/-- What a cache answers. -/
inductive Answer (ν : Type)
  | value (found : Option ν)
  | flag (holds : Bool)
  | count (number : Nat)
  | done
  deriving DecidableEq

variable [DecidableEq κ]

/-- One operation at a time. -/
def step (c : Cache κ ν) (now : Nat) : Op κ ν → Answer ν × Cache κ ν
  | .get key => let (found, c) := c.get now key; (.value found, c)
  | .contains key => (.flag (c.contains now key), c)
  | .insert key value => (.done, c.insert now key value)
  | .invalidate key => let (removed, c) := c.invalidate key; (.flag removed, c)
  | .invalidateIf key condition =>
    let (removed, c) := c.invalidateIf key condition; (.flag removed, c)
  | .clear => (.done, c.clear)
  | .sweep => let (removed, c) := c.sweep now; (.count removed, c)
  | .size => (.count c.size, c)
  | .isEmpty => (.flag c.isEmpty, c)

/-- Operations one after the other, each at its time. -/
def run (c : Cache κ ν) : List (Nat × Op κ ν) → List (Answer ν) × Cache κ ν
  | [] => ([], c)
  | (now, op) :: rest =>
    let (answer, c) := c.step now op
    let (answers, c) := c.run rest
    (answer :: answers, c)

end AccessControl.Cache
