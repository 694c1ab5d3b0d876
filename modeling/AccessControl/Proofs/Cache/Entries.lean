import Mathlib.Data.List.Nodup
import AccessControl.Cache.Run

/-!
What each cache operation does to the entries.

* `mem_touch`, `mem_erase`, `mem_insert`, `mem_of_mem_sweep`: where the entries after an operation
  come from. Nothing but an insertion makes a value, and nothing moves a value to another key.
* `find?_eq_some_iff`: under a key there is at most one entry.
* `get_of_missing`, `get_of_expired`, `get_of_live`: the three ways of a read.
* `isExpired_mono`: what has expired stays so, and with it whatever was touched no later.
* `erase_eq_self`, `erase_touch`: removing what is under a key forgets whether it was there and
  whether it had been touched.
-/

namespace AccessControl.Cache

variable {κ ν : Type}

/-- Two caches with the same bounds and the same entries are the same. -/
theorem ext_entries {c d : Cache κ ν} (hbounds : c.bounds = d.bounds)
    (hentries : c.entries = d.entries) : c = d := by
  cases c
  cases d
  cases hbounds
  cases hentries
  rfl

@[simp] theorem entries_filter (c : Cache κ ν) (p : Entry κ ν → Bool) :
    (c.filter p).entries = c.entries.filter p := rfl

/-- What has expired stays so, and with it whatever was touched no later. -/
theorem isExpired_mono {c : Cache κ ν} {now later : Nat} {gone kept : Entry κ ν}
    (h : c.isExpired now kept = true) (htouched : gone.touched ≤ kept.touched)
    (hlater : now ≤ later) : c.isExpired later gone = true := by
  simp only [isExpired, decide_eq_true_eq] at h ⊢
  unfold Clock.reading at h ⊢
  omega

variable [DecidableEq κ]

/-! ### Where entries come from -/

/-- The entries after a removal are those under other keys. -/
theorem mem_erase {c : Cache κ ν} {key : κ} {e : Entry κ ν} :
    e ∈ (c.erase key).entries ↔ e ∈ c.entries ∧ e.key ≠ key := by
  simp [erase]

/-- After a touch the entry under the key has a new time, and all others are as before. -/
theorem mem_touch_cases {c : Cache κ ν} {now : Nat} {key : κ} {e : Entry κ ν}
    (h : e ∈ (c.touch now key).entries) :
    (e ∈ c.entries ∧ e.key ≠ key) ∨ ∃ old ∈ c.entries, old.key = key ∧
      e = { old with touched := max old.touched (Clock.reading now) } := by
  obtain ⟨old, hold, rfl⟩ := List.mem_map.mp h
  by_cases hkey : old.key = key
  · rw [if_pos hkey]
    exact Or.inr ⟨old, hold, hkey, rfl⟩
  · rw [if_neg hkey]
    exact Or.inl ⟨hold, hkey⟩

/-- A touch changes neither keys nor values. -/
theorem mem_touch {c : Cache κ ν} {now : Nat} {key : κ} {e : Entry κ ν}
    (h : e ∈ (c.touch now key).entries) :
    ∃ old ∈ c.entries, old.key = e.key ∧ old.value = e.value := by
  rcases mem_touch_cases h with ⟨hold, -⟩ | ⟨old, hold, -, rfl⟩
  · exact ⟨e, hold, rfl, rfl⟩
  · exact ⟨old, hold, rfl, rfl⟩

/-- Enforcing the bound only removes entries. -/
theorem mem_of_mem_enforceBound {c : Cache κ ν} {e : Entry κ ν}
    (h : e ∈ c.enforceBound.entries) : e ∈ c.entries :=
  (Entry.evict_sublist _ _).subset h

/-- After an insertion there is the new entry, and nothing else that was not there before. -/
theorem mem_insert {c : Cache κ ν} {now : Nat} {key : κ} {value : ν} {e : Entry κ ν}
    (h : e ∈ (c.insert now key value).entries) :
    e = ⟨key, value, Clock.reading now⟩ ∨ e ∈ c.entries := by
  rcases List.mem_cons.mp (mem_of_mem_enforceBound h) with hnew | hold
  · exact Or.inl hnew
  · exact Or.inr (mem_erase.mp hold).1

/-- A sweep only removes entries. -/
theorem mem_of_mem_sweep {c : Cache κ ν} {now : Nat} {e : Entry κ ν}
    (h : e ∈ (c.sweep now).2.entries) : e ∈ c.entries :=
  (List.mem_filter.mp (mem_of_mem_enforceBound h)).1

/-! ### Looking up -/

/-- What is found under a key is the one entry with that key. -/
theorem find?_eq_some_iff {c : Cache κ ν} {key : κ} {e : Entry κ ν} :
    c.find? key = some e ↔ e ∈ c.entries ∧ e.key = key := by
  unfold find?
  constructor
  · intro h
    exact ⟨List.mem_of_find?_eq_some h, by simpa using List.find?_some h⟩
  · rintro ⟨hmem, rfl⟩
    cases hfound : c.entries.find? fun other => other.key = e.key with
    | none => exact absurd (List.find?_eq_none.mp hfound e hmem) (by simp)
    | some other =>
        have hother := List.mem_of_find?_eq_some hfound
        have hkey : other.key = e.key := by simpa using List.find?_some hfound
        exact congrArg some (List.inj_on_of_nodup_map c.distinct hother hmem hkey)

theorem find?_eq_none_iff {c : Cache κ ν} {key : κ} :
    c.find? key = none ↔ ∀ e ∈ c.entries, e.key ≠ key := by
  simp [find?]

/-- Removing what is not there changes nothing. -/
theorem erase_eq_self {c : Cache κ ν} {key : κ} (h : c.find? key = none) : c.erase key = c := by
  refine ext_entries rfl (List.filter_eq_self.mpr fun e he => ?_)
  simpa using find?_eq_none_iff.mp h e he

/-- A touch is forgotten with the entry that was touched. -/
@[simp] theorem erase_touch (c : Cache κ ν) (now : Nat) (key : κ) :
    (c.touch now key).erase key = c.erase key := by
  refine ext_entries rfl ?_
  show (c.entries.map _).filter _ = c.entries.filter _
  induction c.entries with
  | nil => rfl
  | cons e rest ih =>
      by_cases hkey : e.key = key
      · simpa [hkey] using ih
      · simpa [hkey] using ih

/-- A touched entry is still found, with its value. -/
theorem find?_touch {c : Cache κ ν} {now : Nat} {key : κ} {e : Entry κ ν}
    (h : c.find? key = some e) :
    (c.touch now key).find? key =
      some { e with touched := max e.touched (Clock.reading now) } := by
  obtain ⟨hmem, rfl⟩ := find?_eq_some_iff.mp h
  refine find?_eq_some_iff.mpr ⟨List.mem_map.mpr ⟨e, hmem, ?_⟩, rfl⟩
  exact if_pos rfl

/-! ### Reading -/

theorem get_of_missing {c : Cache κ ν} {now : Nat} {key : κ} (h : c.find? key = none) :
    c.get now key = (none, c) := by
  simp [get, h]

theorem get_of_expired {c : Cache κ ν} {now : Nat} {key : κ} {e : Entry κ ν}
    (h : c.find? key = some e) (hexpired : c.isExpired now e = true) :
    c.get now key = (none, c.erase key) := by
  simp [get, h, hexpired]

theorem get_of_live {c : Cache κ ν} {now : Nat} {key : κ} {e : Entry κ ν}
    (h : c.find? key = some e) (hlive : c.isExpired now e = false) :
    c.get now key = (some e.value, c.touch now key) := by
  simp [get, h, hlive]

/-- A read that finds nothing alive leaves nothing under the key. -/
theorem get_of_not_live {c : Cache κ ν} {now : Nat} {key : κ}
    (h : ∀ e, c.find? key = some e → c.isExpired now e = true) :
    c.get now key = (none, c.erase key) := by
  cases hfound : c.find? key with
  | none => rw [get_of_missing hfound, erase_eq_self hfound]
  | some e => exact get_of_expired hfound (h e hfound)

theorem contains_iff {c : Cache κ ν} {now : Nat} {key : κ} :
    c.contains now key = true ↔ ∃ e, c.find? key = some e ∧ c.isExpired now e = false := by
  unfold contains
  cases c.find? key with
  | none => simp
  | some e => simp

theorem invalidateIf_of_holds {c : Cache κ ν} {key : κ} {condition : ν → Bool} {e : Entry κ ν}
    (h : c.find? key = some e) (hholds : condition e.value = true) :
    c.invalidateIf key condition = (true, c.erase key) := by
  simp [invalidateIf, h, hholds]

theorem invalidateIf_cases (c : Cache κ ν) (key : κ) (condition : ν → Bool) :
    (c.invalidateIf key condition).2 = c ∨ (c.invalidateIf key condition).2 = c.erase key := by
  unfold invalidateIf
  split
  · exact Or.inl rfl
  · split
    · exact Or.inr rfl
    · exact Or.inl rfl

/-- A removal on a condition only removes an entry. -/
theorem mem_of_mem_invalidateIf {c : Cache κ ν} {e : Entry κ ν} (key : κ) (condition : ν → Bool)
    (h : e ∈ (c.invalidateIf key condition).2.entries) : e ∈ c.entries := by
  rcases invalidateIf_cases c key condition with hsame | herased
  · rwa [hsame] at h
  · rw [herased] at h
    exact (mem_erase.mp h).1

/-! ### Runs -/

@[simp] theorem run_nil (c : Cache κ ν) : c.run [] = ([], c) := rfl

@[simp] theorem run_cons (c : Cache κ ν) (now : Nat) (op : Op κ ν) (rest : List (Nat × Op κ ν)) :
    c.run ((now, op) :: rest) =
      ((c.step now op).1 :: ((c.step now op).2.run rest).1, ((c.step now op).2.run rest).2) := rfl

/-- A run goes on where the run before it ended. -/
theorem run_append (c : Cache κ ν) (before after : List (Nat × Op κ ν)) :
    c.run (before ++ after) =
      ((c.run before).1 ++ ((c.run before).2.run after).1, ((c.run before).2.run after).2) := by
  induction before generalizing c with
  | nil => rfl
  | cons timed rest ih =>
      obtain ⟨now, op⟩ := timed
      rw [List.cons_append, run_cons, ih, run_cons, List.cons_append]

/-- No operation changes the bounds. -/
theorem step_bounds (c : Cache κ ν) (now : Nat) (op : Op κ ν) :
    (c.step now op).2.bounds = c.bounds := by
  cases op with
  | get key =>
      show (c.get now key).2.bounds = c.bounds
      unfold get
      split
      · rfl
      · split <;> rfl
  | invalidate key =>
      rcases invalidateIf_cases c key fun _ => true with hsame | herased
      · exact congrArg bounds hsame
      · exact (congrArg bounds herased).trans rfl
  | invalidateIf key condition =>
      rcases invalidateIf_cases c key condition with hsame | herased
      · exact congrArg bounds hsame
      · exact (congrArg bounds herased).trans rfl
  | _ => rfl

/-- No run changes the bounds. -/
theorem run_bounds (c : Cache κ ν) (ops : List (Nat × Op κ ν)) :
    (c.run ops).2.bounds = c.bounds := by
  induction ops generalizing c with
  | nil => rfl
  | cons timed rest ih => exact (ih _).trans (step_bounds c timed.1 timed.2)

end AccessControl.Cache
