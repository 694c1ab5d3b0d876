import AccessControl.Proofs.Cache.Recency

/-!
A cache is a list by recency.

`RecencyList.step` says what each operation does to a plain list of entries, the one touched last in
front: a hit moves its entry to the front, a new entry goes to the front and the list is cut at its
end. Times are only read to tell what has been idle for too long; what is evicted is the end of the
list, whatever its times are.

A cache does the same step by step (`MirroredBy.step`), so over every run at growing times it gives
the same answers and holds the same entries.

Main statement: `run_eq_recencyList`.
-/

namespace AccessControl

/-! ### The list -/

namespace RecencyList

variable {κ ν : Type} [DecidableEq κ]

/-- The entry under a key. -/
def lookup (key : κ) (r : List (Entry κ ν)) : Option (Entry κ ν) := r.find? fun e => e.key = key

/-- One operation on a list by recency, at a time. -/
def step (bounds : Bounds) (r : List (Entry κ ν)) (now : Nat) :
    Cache.Op κ ν → Cache.Answer ν × List (Entry κ ν)
  | .get key =>
    match lookup key r with
    | none => (.value none, r)
    | some e =>
      if bounds.idleTimeout.nanos ≤ now - e.touched then (.value none, Entry.without key r)
      else (.value (some e.value), { e with touched := now } :: Entry.without key r)
  | .contains key =>
    match lookup key r with
    | none => (.flag false, r)
    | some e => (.flag (now - e.touched < bounds.idleTimeout.nanos), r)
  | .insert key value => (.done, (⟨key, value, now⟩ :: Entry.without key r).take bounds.maxEntries)
  | .invalidate key =>
    match lookup key r with
    | none => (.flag false, r)
    | some _ => (.flag true, Entry.without key r)
  | .invalidateIf key condition =>
    match lookup key r with
    | none => (.flag false, r)
    | some e =>
      if condition e.value then (.flag true, Entry.without key r) else (.flag false, r)
  | .clear => (.done, [])
  | .sweep =>
    (.count (r.filter fun e => bounds.idleTimeout.nanos ≤ now - e.touched).length,
      r.filter fun e => now - e.touched < bounds.idleTimeout.nanos)
  | .size => (.count r.length, r)
  | .isEmpty => (.flag r.isEmpty, r)

/-- Operations one after the other, each at its time. -/
def run (bounds : Bounds) (r : List (Entry κ ν)) :
    List (Nat × Cache.Op κ ν) → List (Cache.Answer ν) × List (Entry κ ν)
  | [] => ([], r)
  | (now, op) :: rest =>
    let (answer, r) := step bounds r now op
    let (answers, r) := run bounds r rest
    (answer :: answers, r)

end RecencyList

/-! ### The cache and the list -/

namespace Cache

variable {κ ν : Type} [DecidableEq κ] {c : Cache κ ν} {r : List (Entry κ ν)} {now : Nat}

/-- The clock grows from one operation to the next and has not reached its end. -/
structure StrictClock (ops : List (Nat × Op κ ν)) : Prop where
  increasing : ops.Pairwise fun earlier later => earlier.1 < later.1
  below : ∀ op ∈ ops, op.1 < Clock.limit

instance (ops : List (Nat × Op κ ν)) : Decidable (StrictClock ops) :=
  decidable_of_iff (ops.Pairwise (fun earlier later => earlier.1 < later.1) ∧
      ∀ op ∈ ops, op.1 < Clock.limit)
    ⟨fun h => ⟨h.1, h.2⟩, fun h => ⟨h.increasing, h.below⟩⟩

/-- A read answers and moves as in the list. -/
theorem MirroredBy.get (h : c.MirroredBy r now) (hnow : now < Clock.limit) (key : κ) :
    (c.step now (.get key)).1 = (RecencyList.step c.bounds r now (.get key)).1 ∧
      (c.step now (.get key)).2.MirroredBy (RecencyList.step c.bounds r now (.get key)).2
        (now + 1) := by
  have hfind := h.listed.find?_eq key
  simp only [Cache.step, RecencyList.step, RecencyList.lookup, ← hfind]
  cases hfound : c.find? key with
  | none =>
      rw [get_of_missing hfound]
      exact ⟨rfl, h.mono (Nat.le_succ now)⟩
  | some e =>
      by_cases hidle : c.bounds.idleTimeout.nanos ≤ now - e.touched
      · rw [get_of_expired hfound ((isExpired_iff hnow e).mpr hidle)]
        simp only [if_pos hidle]
        exact ⟨trivial, (h.erase key).mono (Nat.le_succ now)⟩
      · have hlive : c.isExpired now e = false :=
          Bool.eq_false_iff.mpr fun hexpired => hidle ((isExpired_iff hnow e).mp hexpired)
        rw [get_of_live hfound hlive]
        simp only [if_neg hidle]
        obtain ⟨he, rfl⟩ := h.listed.find?_eq_some_iff.mp hfound
        exact ⟨trivial, h.touch he hnow⟩

/-- Asking whether there is a live entry answers as in the list. -/
theorem MirroredBy.contains (h : c.MirroredBy r now) (hnow : now < Clock.limit) (key : κ) :
    Answer.flag (c.contains now key) = (RecencyList.step c.bounds r now (.contains key)).1 := by
  have hfind := h.listed.find?_eq key
  simp only [RecencyList.step, RecencyList.lookup, ← hfind, Cache.contains]
  cases c.find? key with
  | none => rfl
  | some e => simp only [isExpired_eq hnow, Entry.fresh, Bool.not_not]

/-- A removal on a condition answers and removes as in the list. -/
theorem MirroredBy.invalidateIf (h : c.MirroredBy r now) (key : κ) (condition : ν → Bool) :
    (c.step now (.invalidateIf key condition)).1 =
        (RecencyList.step c.bounds r now (.invalidateIf key condition)).1 ∧
      (c.step now (.invalidateIf key condition)).2.MirroredBy
        (RecencyList.step c.bounds r now (.invalidateIf key condition)).2 now := by
  have hfind := h.listed.find?_eq key
  simp only [Cache.step, RecencyList.step, RecencyList.lookup, ← hfind, Cache.invalidateIf]
  cases c.find? key with
  | none => exact ⟨rfl, h⟩
  | some e =>
      by_cases hholds : condition e.value = true
      · simp only [if_pos hholds]
        exact ⟨trivial, h.erase key⟩
      · simp only [if_neg hholds]
        exact ⟨trivial, h⟩

/-- A sweep removes what the list has without fresh entries, and counts it. -/
theorem MirroredBy.size_sweep (h : c.MirroredBy r now) (hnow : now < Clock.limit) :
    (c.sweep now).1 =
      (r.filter fun e => c.bounds.idleTimeout.nanos ≤ now - e.touched).length := by
  have hkept := (h.sweep hnow).listed.size_eq
  have hcount : r.length = _ :=
    List.length_eq_length_filter_add (Entry.fresh c.bounds.idleTimeout.nanos now)
  have hgone : (r.filter fun e => !e.fresh c.bounds.idleTimeout.nanos now) =
      r.filter fun e => c.bounds.idleTimeout.nanos ≤ now - e.touched := by
    refine List.filter_congr fun e _ => ?_
    rw [Entry.fresh, ← decide_not]
    exact decide_eq_decide.mpr Nat.not_lt
  have htotal := sweep_add_size c now
  rw [hkept, h.listed.size_eq] at htotal
  rw [← hgone]
  omega

/-- Each operation gives the answer of the list and leaves the entries of the list. -/
theorem MirroredBy.step (h : c.MirroredBy r now) (hnow : now < Clock.limit) (op : Op κ ν) :
    (c.step now op).1 = (RecencyList.step c.bounds r now op).1 ∧
      (c.step now op).2.MirroredBy (RecencyList.step c.bounds r now op).2 (now + 1) := by
  have hstay : c.MirroredBy r (now + 1) := h.mono (Nat.le_succ now)
  cases op with
  | get key => exact h.get hnow key
  | contains key =>
      refine ⟨h.contains hnow key, ?_⟩
      simp only [RecencyList.step]
      split <;> exact hstay
  | insert key value => exact ⟨rfl, h.insert hnow key value⟩
  | invalidate key =>
      obtain ⟨hanswer, hmirrored⟩ := h.invalidateIf key fun _ => true
      exact ⟨hanswer, hmirrored.mono (Nat.le_succ now)⟩
  | invalidateIf key condition =>
      obtain ⟨hanswer, hmirrored⟩ := h.invalidateIf key condition
      exact ⟨hanswer, hmirrored.mono (Nat.le_succ now)⟩
  | clear => exact ⟨rfl, MirroredBy.empty c.bounds _⟩
  | sweep =>
      exact ⟨congrArg Answer.count (h.size_sweep hnow), (h.sweep hnow).mono (Nat.le_succ now)⟩
  | size => exact ⟨congrArg Answer.count h.listed.size_eq, hstay⟩
  | isEmpty =>
      refine ⟨congrArg Answer.flag ?_, hstay⟩
      rw [Cache.isEmpty, Bool.eq_iff_iff, List.isEmpty_iff_length_eq_zero,
        List.isEmpty_iff_length_eq_zero, h.listed.perm.length_eq]

/-- Over a run that begins where the list mirrors the cache, both give the same answers, and the
list mirrors the cache at the end. -/
theorem MirroredBy.run {ops : List (Nat × Op κ ν)} (h : c.MirroredBy r now)
    (hclock : StrictClock ops) (hfrom : ∀ op ∈ ops, now ≤ op.1) :
    (c.run ops).1 = (RecencyList.run c.bounds r ops).1 ∧
      ∃ later, (c.run ops).2.MirroredBy (RecencyList.run c.bounds r ops).2 later := by
  induction ops generalizing c r now with
  | nil => exact ⟨rfl, now, h⟩
  | cons timed rest ih =>
      obtain ⟨time, op⟩ := timed
      obtain ⟨hlater, hrest⟩ := List.pairwise_cons.mp hclock.increasing
      have htime := hclock.below (time, op) List.mem_cons_self
      have hstart : c.MirroredBy r time := h.mono (hfrom (time, op) List.mem_cons_self)
      obtain ⟨hanswer, hstep⟩ := hstart.step htime op
      have hmore : StrictClock rest :=
        ⟨hrest, fun o ho => hclock.below o (List.mem_cons_of_mem _ ho)⟩
      obtain ⟨hanswers, hend⟩ := ih hstep hmore fun o ho => hlater o ho
      rw [step_bounds] at hanswers hend
      refine ⟨?_, hend⟩
      rw [run_cons, hanswer, hanswers]
      rfl

/-- **A cache is a list by recency.** Whatever the bounds are, and whatever is asked at growing
times, the cache gives the answers of the list and holds its entries, with the same keys, values and
times of the last touch; and the list is in the order of these times. -/
theorem run_eq_recencyList (bounds : Bounds) {ops : List (Nat × Op κ ν)}
    (hclock : StrictClock ops) :
    ((Cache.empty bounds).run ops).1 = (RecencyList.run bounds [] ops).1 ∧
      ((Cache.empty bounds).run ops).2.entries.Perm (RecencyList.run bounds [] ops).2 ∧
      Entry.ByRecency (RecencyList.run bounds [] ops).2 := by
  have hempty : (Cache.empty bounds : Cache κ ν).MirroredBy [] 0 := MirroredBy.empty bounds 0
  obtain ⟨hanswers, later, hend⟩ := hempty.run hclock fun op _ => Nat.zero_le op.1
  exact ⟨hanswers, hend.listed.perm, hend.listed.sorted⟩

/-! ### Two places -/

/-- Room for two entries, each for ten nanoseconds after its last touch. -/
def twoPlaces : Bounds := .ofLimits 2 ⟨10⟩

/-- A hit saves an entry from eviction; one entry expires and is read, another is swept, and a
removal depends on the value. -/
def mixedUse : List (Nat × Op String Nat) :=
  [(1, .insert "a" 1), (2, .insert "b" 2), (3, .get "a"), (4, .insert "c" 3), (5, .contains "b"),
    (12, .invalidateIf "c" fun value => value == 7), (13, .get "a"), (14, .size), (15, .sweep),
    (16, .insert "d" 4), (17, .invalidate "d"), (18, .isEmpty), (19, .insert "e" 5)]

/-- The answers of the cache, read off the list. -/
theorem answers_of_mixedUse :
    StrictClock mixedUse ∧ ((Cache.empty twoPlaces).run mixedUse).1 =
      [.done, .done, .value (some 1), .done, .flag false, .flag false, .value none, .count 1,
        .count 1, .done, .flag true, .flag true, .done] ∧
      ((Cache.empty twoPlaces).run mixedUse).2.entries.Perm [⟨"e", 5, 19⟩] := by
  have hclock : StrictClock mixedUse := by decide
  obtain ⟨hanswers, hentries, -⟩ := run_eq_recencyList twoPlaces hclock
  exact ⟨hclock, hanswers.trans rfl, hentries⟩

end Cache

end AccessControl
