import Mathlib.Data.Finset.Card
import AccessControl.Cache.Sweeper
import AccessControl.Proofs.Cache.Chronicle
import AccessControl.Proofs.Cache.Recency

/-!
How long an idle entry is kept.

A sweep leaves nothing that has expired, and no operation dates an entry before its own time
(`mem_step`). So after a sweep nothing in the cache was touched so long ago that it had expired
then, whatever else is done since (`le_of_swept`). Where a sweep is made at every tick of a sweeper,
the last tick is less than a period ago; and an entry touched since the start that had been idle for
a period more than the idle time would have expired at that tick.

This needs nothing but the order of times and a sweep at each tick (`Sweeper.Attends`), and the
sweep may come before or after what else is done at its instant.

Main statement: `Sweeper.Attends.idle_lt`.
-/

namespace AccessControl

/-! ### Ticks -/

namespace Sweeper

variable {s : Sweeper} {after upTo tick : Nat}

/-- The ticks are the start and a positive number of periods. -/
theorem mem_ticks (hperiod : 0 < s.period.nanos) :
    tick ∈ s.ticks after upTo ↔ (after < tick ∧ tick ≤ upTo) ∧
      ∃ count, 0 < count ∧ tick = s.started + count * s.period.nanos := by
  have hmem : tick ∈ s.ticks after upTo ↔ ∃ count,
      ((after - s.started) / s.period.nanos < count ∧
        count ≤ (upTo - s.started) / s.period.nanos) ∧
      s.started + count * s.period.nanos = tick := by
    simp only [ticks, List.mem_map, List.mem_range'_1]
    refine exists_congr fun count => and_congr_left fun _ => ?_
    omega
  simp only [hmem, Nat.div_lt_iff_lt_mul hperiod, Nat.le_div_iff_mul_le hperiod]
  constructor
  · rintro ⟨count, ⟨hafter, hupTo⟩, rfl⟩
    have hcount : 0 < count := Nat.pos_of_mul_pos_right (Nat.zero_lt_of_lt hafter)
    exact ⟨⟨by omega, by omega⟩, count, hcount, rfl⟩
  · rintro ⟨⟨hafter, hupTo⟩, count, hcount, rfl⟩
    have hlate : 0 < count * s.period.nanos := Nat.mul_pos hcount hperiod
    exact ⟨count, ⟨by omega, by omega⟩, rfl⟩

theorem ticks_increasing (hperiod : 0 < s.period.nanos) :
    (s.ticks after upTo).Pairwise (· < ·) := by
  refine List.pairwise_map.mpr ((List.pairwise_lt_range' _ Nat.one_pos).imp fun hlt => ?_)
  exact Nat.add_lt_add_left (Nat.mul_lt_mul_of_pos_right hlt hperiod) _

/-- A tick at the end of a time is the last one in it. -/
theorem ticks_eq_concat (hperiod : 0 < s.period.nanos) (htick : upTo ∈ s.ticks after upTo) :
    ∃ front, s.ticks after upTo = front ++ [upTo] := by
  obtain ⟨front, back, hsplit⟩ := List.append_of_mem htick
  have hback : back = [] := by
    refine List.eq_nil_iff_forall_not_mem.mpr fun later hlater => ?_
    have hincreasing : (s.ticks after upTo).Pairwise (· < ·) := ticks_increasing hperiod
    rw [hsplit] at hincreasing
    have hlt : upTo < later :=
      (List.pairwise_cons.mp (List.pairwise_append.mp hincreasing).2.1).1 later hlater
    have hmem : later ∈ s.ticks after upTo := by
      rw [hsplit]
      exact List.mem_append_right front (List.mem_cons_of_mem upTo hlater)
    have hle := ((mem_ticks hperiod).mp hmem).1.2
    omega
  exact ⟨front, by rw [hsplit, hback]⟩

theorem ticks_self (hperiod : 0 < s.period.nanos) : s.ticks after after = [] := by
  refine List.eq_nil_iff_forall_not_mem.mpr fun tick htick => ?_
  obtain ⟨⟨hafter, hupTo⟩, -⟩ := (mem_ticks hperiod).mp htick
  exact absurd hafter (Nat.not_lt.mpr hupTo)

/-- Where there is no tick in one time and none in the next, there is none in both. -/
theorem ticks_eq_nil_of_split {now : Nat} (hperiod : 0 < s.period.nanos)
    (hfirst : s.ticks after now = []) (hnext : s.ticks now upTo = []) :
    s.ticks after upTo = [] := by
  refine List.eq_nil_iff_forall_not_mem.mpr fun tick htick => ?_
  obtain ⟨⟨hafter, hupTo⟩, hcount⟩ := (mem_ticks hperiod).mp htick
  rcases Nat.lt_or_ge now tick with hlater | hsoon
  · exact List.eq_nil_iff_forall_not_mem.mp hnext tick
      ((mem_ticks hperiod).mpr ⟨⟨hlater, hupTo⟩, hcount⟩)
  · exact List.eq_nil_iff_forall_not_mem.mp hfirst tick
      ((mem_ticks hperiod).mpr ⟨⟨hafter, hsoon⟩, hcount⟩)

/-- There is no tick before a period has passed. -/
theorem ticks_eq_nil_of_lt (hperiod : 0 < s.period.nanos) (h : upTo < s.started + s.period.nanos) :
    s.ticks after upTo = [] := by
  refine List.eq_nil_iff_forall_not_mem.mpr fun tick htick => ?_
  obtain ⟨⟨-, hupTo⟩, count, hcount, rfl⟩ := (mem_ticks hperiod).mp htick
  have hone : s.period.nanos ≤ count * s.period.nanos := Nat.le_mul_of_pos_left _ hcount
  omega

/-- Operations in the order of their times, with a sweep at each tick between two times. -/
structure Attends {κ ν : Type} (s : Sweeper) (after : Nat) (ops : List (Nat × Cache.Op κ ν))
    (upTo : Nat) : Prop where
  ordered : ops.Pairwise fun earlier later => earlier.1 ≤ later.1
  due : ∀ tick ∈ s.ticks after upTo, (tick, .sweep) ∈ ops

end Sweeper

/-! ### What a sweep leaves -/

namespace Cache

variable {κ ν : Type} [DecidableEq κ] {c : Cache κ ν} {e : Entry κ ν} {now tick : Nat}
  {ops : List (Nat × Op κ ν)}

/-- A sweep leaves nothing that has expired. -/
theorem live_of_mem_sweep (h : e ∈ (c.sweep now).2.entries) : c.isExpired now e = false := by
  have hlive := (List.mem_filter.mp (mem_of_mem_enforceBound h)).2
  simpa using hlive

/-- After a sweep there are as many entries as keys that are found. -/
theorem size_eq_card_contains (c : Cache κ ν) (now : Nat) :
    ∃ keys : Finset κ, (∀ key, key ∈ keys ↔ (c.sweep now).2.contains now key = true) ∧
      (c.sweep now).2.size = keys.card := by
  refine ⟨((c.sweep now).2.entries.map Entry.key).toFinset, fun key => ?_, ?_⟩
  · rw [List.mem_toFinset, List.mem_map, contains_iff]
    constructor
    · rintro ⟨e, he, rfl⟩
      have hlive : c.isExpired now e = false := live_of_mem_sweep he
      exact ⟨e, find?_eq_some_iff.mpr ⟨he, rfl⟩, hlive⟩
    · rintro ⟨e, hfound, -⟩
      exact ⟨e, find?_eq_some_iff.mp hfound⟩
  · rw [List.toFinset_card_of_nodup (c.sweep now).2.distinct, List.length_map]
    rfl

/-- An entry after an operation was there before, or has been touched at that time. -/
theorem mem_step {op : Op κ ν} (h : e ∈ (c.step now op).2.entries) :
    e ∈ c.entries ∨ Clock.reading now ≤ e.touched := by
  rcases mem_step_cases h with ⟨-, hold⟩ | ⟨-, old, -, rfl⟩ | ⟨-, htouched⟩
  · exact Or.inl hold
  · exact Or.inr (Nat.le_max_right _ _)
  · exact Or.inr (Nat.le_of_eq htouched.symm)

/-- An entry after a run was there before, or has been touched at the time of an operation. -/
theorem mem_run (h : e ∈ (c.run ops).2.entries) :
    e ∈ c.entries ∨ ∃ op ∈ ops, Clock.reading op.1 ≤ e.touched := by
  induction ops generalizing c with
  | nil => exact Or.inl h
  | cons timed rest ih =>
      obtain ⟨time, op⟩ := timed
      rcases ih h with hstep | ⟨later, hlater, htouched⟩
      · rcases mem_step hstep with hold | htouched
        · exact Or.inl hold
        · exact Or.inr ⟨(time, op), List.mem_cons_self, htouched⟩
      · exact Or.inr ⟨later, List.mem_cons_of_mem _ hlater, htouched⟩

/-- What is there after a sweep, and after whatever comes later, had not expired at the sweep. -/
theorem le_of_swept (hordered : ops.Pairwise fun earlier later => earlier.1 ≤ later.1)
    (hswept : (tick, .sweep) ∈ ops) (htick : tick < Clock.limit)
    (h : e ∈ (c.run ops).2.entries) : tick ≤ e.touched + c.bounds.idleTimeout.nanos := by
  obtain ⟨before, later, rfl⟩ := List.append_of_mem hswept
  rw [run_append, run_cons] at h
  rcases mem_run h with hleft | ⟨op, hop, htouched⟩
  · -- What the sweep has left had been idle for less than the idle time.
    have hlive := live_of_mem_sweep hleft
    rw [isExpired_eq htick, run_bounds, Bool.not_eq_false', Entry.fresh, decide_eq_true_eq] at hlive
    omega
  · have hafter : tick ≤ op.1 :=
      (List.pairwise_cons.mp (List.pairwise_append.mp hordered).2.1).1 op hop
    unfold Clock.reading at htouched
    omega

end Cache

/-- Where a sweep is made at each tick, an entry touched since the start is never idle for a period
more than the idle time. -/
theorem Sweeper.Attends.idle_lt {κ ν : Type} [DecidableEq κ] {s : Sweeper} {c : Cache κ ν}
    {ops : List (Nat × Cache.Op κ ν)} {now : Nat} {e : Entry κ ν}
    (h : s.Attends s.started ops now) (hperiod : 0 < s.period.nanos) (hnow : now < Clock.limit)
    (he : e ∈ (c.run ops).2.entries) (hsince : s.started ≤ e.touched) :
    now - e.touched < c.bounds.idleTimeout.nanos + s.period.nanos := by
  by_contra hidle
  -- The last tick until now is less than a period ago.
  have hlast : now - s.started < (now - s.started) / s.period.nanos * s.period.nanos +
      s.period.nanos := by
    rw [← Nat.succ_mul]
    exact Nat.lt_mul_of_div_lt (Nat.lt_succ_self _) hperiod
  have hpast : (now - s.started) / s.period.nanos * s.period.nanos ≤ now - s.started :=
    Nat.div_mul_le_self _ _
  have htick : s.started + (now - s.started) / s.period.nanos * s.period.nanos ∈
      s.ticks s.started now := by
    refine (mem_ticks hperiod).mpr ⟨⟨by omega, by omega⟩, _, ?_, rfl⟩
    exact Nat.div_pos (by omega) hperiod
  have hswept := Cache.le_of_swept h.ordered (h.due _ htick) (by omega) he
  omega

end AccessControl
