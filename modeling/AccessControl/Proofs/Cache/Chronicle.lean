import AccessControl.Proofs.Cache.Entries

/-!
What a cache does in a run, and which entries it touches.

The chronicle of a run tells of each operation when and what was asked, and what was answered. An
insertion touches the entry that it makes, and a read the entry that it finds; `touches` tells this
from the answer.

* `map_answer_chronicle`: the answers are those of the run.
* `mem_step_cases`: where an entry after an operation comes from, and what it then says of its last
  touch.
-/

namespace AccessControl.Cache

variable {κ ν : Type} [DecidableEq κ]

/-- An operation of a run: when and what was asked, and the answer. -/
structure Deed (κ ν : Type) where
  time : Nat
  op : Op κ ν
  answer : Answer ν

/-- What a cache does when it is asked. -/
def deed (c : Cache κ ν) (now : Nat) (op : Op κ ν) : Deed κ ν := ⟨now, op, (c.step now op).1⟩

/-- What a cache does in a run, in order. -/
def chronicle (c : Cache κ ν) : List (Nat × Op κ ν) → List (Deed κ ν)
  | [] => []
  | (now, op) :: rest => c.deed now op :: (c.step now op).2.chronicle rest

/-- An insertion touches its entry, and so does a read that finds it. -/
def Deed.touches (key : κ) : Deed κ ν → Bool
  | ⟨_, .insert other _, _⟩ => other = key
  | ⟨_, .get other, .value (some _)⟩ => other = key
  | _ => false

/-- The answers in the chronicle are those of the run. -/
theorem map_answer_chronicle (c : Cache κ ν) (ops : List (Nat × Op κ ν)) :
    (c.chronicle ops).map Deed.answer = (c.run ops).1 := by
  induction ops generalizing c with
  | nil => rfl
  | cons timed rest ih =>
      obtain ⟨now, op⟩ := timed
      rw [chronicle, List.map_cons, ih, run_cons]
      rfl

/-- A read touches what it finds, under its key and under no other. -/
theorem touches_get (c : Cache κ ν) (now : Nat) (key other : κ) :
    (c.deed now (.get key)).touches other = ((c.get now key).1.isSome && decide (key = other)) := by
  change Deed.touches other ⟨now, .get key, .value (c.get now key).1⟩ = _
  cases (c.get now key).1 <;> rfl

/-- An entry after an operation was there before and has not been touched, was there before and has
been read, or is new. -/
theorem mem_step_cases {c : Cache κ ν} {now : Nat} {op : Op κ ν} {e : Entry κ ν}
    (h : e ∈ (c.step now op).2.entries) :
    ((c.deed now op).touches e.key = false ∧ e ∈ c.entries) ∨
      ((c.deed now op).touches e.key = true ∧
        ∃ old ∈ c.entries, e = { old with touched := max old.touched (Clock.reading now) }) ∨
      ((c.deed now op).touches e.key = true ∧ e.touched = Clock.reading now) := by
  cases op with
  | get key =>
      change e ∈ (c.get now key).2.entries at h
      rw [touches_get]
      cases hfound : c.find? key with
      | none =>
          rw [get_of_missing hfound] at h ⊢
          exact Or.inl ⟨rfl, h⟩
      | some found =>
          cases hexpired : c.isExpired now found with
          | true =>
              rw [get_of_expired hfound hexpired] at h ⊢
              exact Or.inl ⟨rfl, (mem_erase.mp h).1⟩
          | false =>
              rw [get_of_live hfound hexpired] at h ⊢
              rcases mem_touch_cases h with ⟨hold, hkey⟩ | ⟨old, hold, hkey, rfl⟩
              · exact Or.inl ⟨decide_eq_false (Ne.symm hkey), hold⟩
              · exact Or.inr (Or.inl ⟨decide_eq_true hkey.symm, old, hold, rfl⟩)
  | insert key value =>
      rcases List.mem_cons.mp (mem_of_mem_enforceBound h) with rfl | hleft
      · exact Or.inr (Or.inr ⟨decide_eq_true rfl, rfl⟩)
      · obtain ⟨hold, hkey⟩ := mem_erase.mp hleft
        exact Or.inl ⟨decide_eq_false (Ne.symm hkey), hold⟩
  | invalidate key => exact Or.inl ⟨rfl, mem_of_mem_invalidateIf key (fun _ => true) h⟩
  | invalidateIf key condition => exact Or.inl ⟨rfl, mem_of_mem_invalidateIf key condition h⟩
  | clear => exact absurd h List.not_mem_nil
  | sweep => exact Or.inl ⟨rfl, mem_of_mem_sweep h⟩
  | contains key => exact Or.inl ⟨rfl, h⟩
  | size => exact Or.inl ⟨rfl, h⟩
  | isEmpty => exact Or.inl ⟨rfl, h⟩

end AccessControl.Cache
