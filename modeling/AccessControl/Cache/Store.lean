import AccessControl.Cache.Bounds

/-!
The cache: entries under distinct keys, each with the time when it was last touched. An entry that
has been idle for too long is gone for every reader, and is removed when it is read or swept; an
insertion that makes too many removes those that were touched least recently.

Every operation is given the time in nanoseconds since the cache was made. The order of the
entries has no meaning.
-/

namespace AccessControl

/-- A value under a key, with the time when it was last touched. -/
structure Entry (κ ν : Type) where
  key : κ
  value : ν
  touched : Nat
  deriving DecidableEq

namespace Entry

variable {κ ν : Type}

/-! ### Eviction -/

/-- An entry than which none was touched earlier. Which of several such entries it is follows the
order of the list, and nothing that is proved of runs depends on it. -/
def oldest? : List (Entry κ ν) → Option (Entry κ ν)
  | [] => none
  | e :: rest =>
    match oldest? rest with
    | none => some e
    | some other => if e.touched ≤ other.touched then some e else some other

/-- The entries without one that was touched least recently. -/
def dropOldest [DecidableEq κ] (entries : List (Entry κ ν)) : List (Entry κ ν) :=
  match oldest? entries with
  | none => entries
  | some e => entries.eraseP fun other => other.key = e.key

/-- The entries after so many evictions, each of one that was touched least recently. -/
def evict [DecidableEq κ] : Nat → List (Entry κ ν) → List (Entry κ ν)
  | 0, entries => entries
  | count + 1, entries => evict count (dropOldest entries)

/-- How many entries go in so many evictions. -/
def evictions [DecidableEq κ] : Nat → List (Entry κ ν) → Nat
  | 0, _ => 0
  | count + 1, entries =>
    match oldest? entries with
    | none => 0
    | some _ => evictions count (dropOldest entries) + 1

theorem dropOldest_sublist [DecidableEq κ] (entries : List (Entry κ ν)) :
    (dropOldest entries).Sublist entries := by
  unfold dropOldest
  split
  · exact List.Sublist.refl _
  · exact List.eraseP_sublist

theorem evict_sublist [DecidableEq κ] (count : Nat) (entries : List (Entry κ ν)) :
    (evict count entries).Sublist entries := by
  induction count generalizing entries with
  | zero => exact List.Sublist.refl _
  | succ count ih => exact (ih _).trans (dropOldest_sublist entries)

end Entry

/-- A cache: its bounds, and entries under distinct keys. -/
structure Cache (κ ν : Type) where
  bounds : Bounds
  entries : List (Entry κ ν)
  distinct : (entries.map Entry.key).Nodup

namespace Cache

variable {κ ν : Type}

/-- The cache without entries. -/
def empty (bounds : Bounds) : Cache κ ν := ⟨bounds, [], .nil⟩

/-- The cache with some of its entries left out. -/
def restrict (c : Cache κ ν) (entries : List (Entry κ ν)) (h : entries.Sublist c.entries) :
    Cache κ ν :=
  ⟨c.bounds, entries, c.distinct.sublist (h.map _)⟩

/-- The entries that satisfy a condition. -/
def filter (c : Cache κ ν) (p : Entry κ ν → Bool) : Cache κ ν :=
  c.restrict (c.entries.filter p) List.filter_sublist

/-- Whether an entry has been idle for too long. -/
def isExpired (c : Cache κ ν) (now : Nat) (e : Entry κ ν) : Bool :=
  c.bounds.idleReading ≤ Clock.reading now - e.touched

/-- The number of entries, expired ones included. -/
def size (c : Cache κ ν) : Nat := c.entries.length

def isEmpty (c : Cache κ ν) : Bool := c.entries.isEmpty

/-- The cache without any of its entries. -/
def clear (c : Cache κ ν) : Cache κ ν := empty c.bounds

section Keys

variable [DecidableEq κ]

/-- The entry under a key, expired or not. -/
def find? (c : Cache κ ν) (key : κ) : Option (Entry κ ν) :=
  c.entries.find? fun e => e.key = key

/-- The cache without the entry under a key. -/
def erase (c : Cache κ ν) (key : κ) : Cache κ ν := c.filter fun e => e.key ≠ key

/-- The cache with the entry under a key touched. A touch never moves a time backwards. -/
def touch (c : Cache κ ν) (now : Nat) (key : κ) : Cache κ ν where
  bounds := c.bounds
  entries := c.entries.map fun e =>
    if e.key = key then { e with touched := max e.touched (Clock.reading now) } else e
  distinct := by
    have hkeys : ∀ e : Entry κ ν, (if e.key = key then
        { e with touched := max e.touched (Clock.reading now) } else e).key = e.key := by
      intro e
      split <;> rfl
    simpa [List.map_map, Function.comp_def, hkeys] using c.distinct

/-- The cache with as many evictions as bring it within its bounds. -/
def enforceBound (c : Cache κ ν) : Cache κ ν :=
  c.restrict (Entry.evict (c.size - c.bounds.maxEntries) c.entries) (Entry.evict_sublist _ _)

/-- How many entries are evicted to bring the cache within its bounds. -/
def evictions (c : Cache κ ν) : Nat :=
  Entry.evictions (c.size - c.bounds.maxEntries) c.entries

/-! ### Operations -/

/-- The value under a key, which is touched. An expired entry is removed and gives nothing. -/
def get (c : Cache κ ν) (now : Nat) (key : κ) : Option ν × Cache κ ν :=
  match c.find? key with
  | none => (none, c)
  | some e => if c.isExpired now e then (none, c.erase key) else (some e.value, c.touch now key)

/-- Whether there is an entry under a key that has not expired. Nothing is touched. -/
def contains (c : Cache κ ν) (now : Nat) (key : κ) : Bool :=
  match c.find? key with
  | none => false
  | some e => !c.isExpired now e

/-- The cache with a new entry in place of whatever was under its key, within its bounds. -/
def insert (c : Cache κ ν) (now : Nat) (key : κ) (value : ν) : Cache κ ν :=
  enforceBound
    { bounds := c.bounds
      entries := ⟨key, value, Clock.reading now⟩ :: (c.erase key).entries
      distinct := by
        refine List.nodup_cons.2 ⟨?_, (c.erase key).distinct⟩
        simp [erase, filter, restrict] }

/-- Removes the entry under a key if its value satisfies a condition, and says whether it did. -/
def invalidateIf (c : Cache κ ν) (key : κ) (condition : ν → Bool) : Bool × Cache κ ν :=
  match c.find? key with
  | none => (false, c)
  | some e => if condition e.value then (true, c.erase key) else (false, c)

/-- Removes the entry under a key, expired or not, and says whether there was one. -/
def invalidate (c : Cache κ ν) (key : κ) : Bool × Cache κ ν := c.invalidateIf key fun _ => true

/-- Removes the expired entries, then evicts down to the bound; says how many went for the one and
for the other together. -/
def sweep (c : Cache κ ν) (now : Nat) : Nat × Cache κ ν :=
  let live := c.filter fun e => !c.isExpired now e
  (c.size - live.size + live.evictions, live.enforceBound)

end Keys

end Cache

end AccessControl
