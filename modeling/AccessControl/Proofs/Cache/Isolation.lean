import Mathlib.Data.List.Dedup
import Mathlib.Data.Finset.Card
import AccessControl.Proofs.Cache.Chronicle
import AccessControl.Proofs.Cache.Lookups

/-!
Keys do not interfere as long as there is room for all of them.

`only` leaves of a cache what is under one key. Where the keys of a cache are among some for which
there are places (`Roomy`), nothing is ever evicted. Then an operation on the key does to that part
what it does to the whole, and answers the same (`only_step`, `answer_only`), and an operation on
another key does nothing to it (`only_step_of_other`). So the part goes through the run of its own
operations (`Roomy.only_run`).

Main statement: `other_keys_unseen`. It needs nothing of the clock.
-/

namespace AccessControl.Cache

variable {κ ν : Type} [DecidableEq κ]

/-! ### Operations on one key -/

/-- The key that is inserted under. -/
def Op.inserted? : Op κ ν → Option κ
  | .insert key _ => some key
  | _ => none

/-- Whether an operation answers something about a key. -/
def Op.asks (key : κ) : Op κ ν → Bool
  | .get other | .contains other | .invalidate other | .invalidateIf other _ => other = key
  | _ => false

/-- Whether an operation is about a key, or may remove something from all of the cache. -/
def Op.concerns (key : κ) : Op κ ν → Bool
  | .insert other _ => other = key
  | .clear | .sweep => true
  | op => op.asks key

/-- The operations of a run that concern a key, at their times. -/
def opsOn (key : κ) (ops : List (Nat × Op κ ν)) : List (Nat × Op κ ν) :=
  ops.filter fun timed => timed.2.concerns key

/-- The keys that are inserted under in a run. -/
def insertedKeys (ops : List (Nat × Op κ ν)) : Finset κ :=
  (ops.filterMap fun timed => timed.2.inserted?).toFinset

/-- What a run answers about a key, with the operations and their times. -/
def answersOn (key : κ) (c : Cache κ ν) (ops : List (Nat × Op κ ν)) : List (Deed κ ν) :=
  (c.chronicle ops).filter fun d => d.op.asks key

theorem mem_insertedKeys {ops : List (Nat × Op κ ν)} {key : κ} :
    key ∈ insertedKeys ops ↔ ∃ timed ∈ ops, timed.2.inserted? = some key := by
  simp [insertedKeys]

/-! ### Room for all keys -/

/-- The keys of a cache are among some for which there are places. -/
structure Roomy (keys : Finset κ) (c : Cache κ ν) : Prop where
  places : keys.card ≤ c.bounds.maxEntries
  held : ∀ e ∈ c.entries, e.key ∈ keys

variable {c : Cache κ ν} {keys : Finset κ} {key other : κ} {now : Nat} {op : Op κ ν}

/-- A cache whose keys are among some has no more entries than there are keys. -/
theorem size_le_card (h : ∀ e ∈ c.entries, e.key ∈ keys) : c.size ≤ keys.card := by
  have hkeys : (c.entries.map Entry.key).toFinset ⊆ keys := by
    intro key hkey
    obtain ⟨e, he, rfl⟩ := List.mem_map.mp (List.mem_toFinset.mp hkey)
    exact h e he
  have hcard := Finset.card_le_card hkeys
  rwa [List.toFinset_card_of_nodup c.distinct, List.length_map] at hcard

theorem Roomy.within (h : Roomy keys c) : c.size ≤ c.bounds.maxEntries :=
  Nat.le_trans (size_le_card h.held) h.places

omit [DecidableEq κ] in
theorem Roomy.filter (h : Roomy keys c) (p : Entry κ ν → Bool) : Roomy keys (c.filter p) :=
  ⟨h.places, fun e he => h.held e (List.mem_of_mem_filter he)⟩

/-- There is a place for each of the keys. -/
theorem Roomy.room (h : Roomy keys c) (hkey : key ∈ keys) :
    (c.erase key).size < c.bounds.maxEntries := by
  have hothers : ∀ e ∈ (c.erase key).entries, e.key ∈ keys.erase key := by
    intro e he
    obtain ⟨hold, hne⟩ := mem_erase.mp he
    exact Finset.mem_erase.mpr ⟨hne, h.held e hold⟩
  have hcard := Finset.card_erase_lt_of_mem hkey
  exact Nat.lt_of_le_of_lt (size_le_card hothers) (Nat.lt_of_lt_of_le hcard h.places)

/-- Within the bound there is nothing to evict. -/
theorem enforceBound_eq_self (h : c.size ≤ c.bounds.maxEntries) : c.enforceBound = c := by
  have hnone : c.size - c.bounds.maxEntries = 0 := Nat.sub_eq_zero_of_le h
  refine ext_entries rfl ?_
  simp only [enforceBound, restrict, hnone]
  rfl

/-- Where there is room a sweep removes what has expired and nothing else. -/
theorem Roomy.sweep_eq (h : Roomy keys c) (now : Nat) :
    (c.sweep now).2 = c.filter fun e => !c.isExpired now e :=
  enforceBound_eq_self (h.filter _).within

/-- A read leaves the cache as it is, or removes or touches the entry under its key. -/
theorem get_cases (c : Cache κ ν) (now : Nat) (key : κ) :
    (c.get now key).2 = c ∨ (c.get now key).2 = c.erase key ∨
      (c.get now key).2 = c.touch now key := by
  unfold get
  split
  · exact Or.inl rfl
  · split
    · exact Or.inr (Or.inl rfl)
    · exact Or.inr (Or.inr rfl)

/-- There stays room if nothing is inserted but under the keys. -/
theorem Roomy.step (h : Roomy keys c) (now : Nat) (hop : ∀ key ∈ op.inserted?, key ∈ keys) :
    Roomy keys (c.step now op).2 := by
  refine ⟨(step_bounds c now op).symm ▸ h.places, fun e he => ?_⟩
  cases op with
  | get key =>
      change e ∈ (c.get now key).2.entries at he
      rcases get_cases c now key with hsame | herased | htouched
      · rw [hsame] at he
        exact h.held e he
      · rw [herased] at he
        exact h.held e (mem_erase.mp he).1
      · rw [htouched] at he
        obtain ⟨old, hold, hkey, -⟩ := mem_touch he
        exact hkey ▸ h.held old hold
  | insert key value =>
      rcases mem_insert he with rfl | hold
      · exact hop key rfl
      · exact h.held e hold
  | invalidate key => exact h.held e (mem_of_mem_invalidateIf key (fun _ => true) he)
  | invalidateIf key condition => exact h.held e (mem_of_mem_invalidateIf key condition he)
  | clear => exact absurd he List.not_mem_nil
  | sweep => exact h.held e (mem_of_mem_sweep he)
  | contains key => exact h.held e he
  | size => exact h.held e he
  | isEmpty => exact h.held e he

/-! ### The part under one key -/

/-- The cache without the entries under all other keys. -/
def only (c : Cache κ ν) (key : κ) : Cache κ ν := c.filter fun e => e.key = key

theorem find?_only (c : Cache κ ν) (key : κ) : (c.only key).find? key = c.find? key :=
  find?_congr fun e hkey => by simp [only, hkey]

theorem find?_only_of_ne (h : other ≠ key) : (c.only key).find? other = none := by
  refine find?_eq_none_iff.mpr fun e he hother => h ?_
  have hkey : e.key = key := by simpa using (List.mem_filter.mp he).2
  exact hother.symm.trans hkey

theorem only_filter (c : Cache κ ν) (key : κ) (p : Entry κ ν → Bool) :
    (c.filter p).only key = (c.only key).filter p :=
  ext_entries rfl (List.filter_comm _ _ _)

theorem only_erase (c : Cache κ ν) (key other : κ) :
    (c.erase other).only key = (c.only key).erase other :=
  only_filter c key _

theorem only_touch (c : Cache κ ν) (now : Nat) (key other : κ) :
    (c.touch now other).only key = (c.only key).touch now other := by
  refine ext_entries rfl (List.filter_map.trans (congrArg _ (List.filter_congr fun e _ => ?_)))
  by_cases hkey : e.key = other
  · simp [hkey]
  · simp [hkey]

/-- Removing another key does nothing to the part under a key. -/
theorem only_erase_of_ne (h : other ≠ key) : (c.erase other).only key = c.only key := by
  rw [only_erase, erase_eq_self (find?_only_of_ne h)]

/-- Touching what is not there changes nothing. -/
theorem touch_eq_self (h : c.find? key = none) (now : Nat) : c.touch now key = c := by
  refine ext_entries rfl ((List.map_congr_left fun e he => ?_).trans (List.map_id _))
  exact if_neg (find?_eq_none_iff.mp h e he)

/-- Touching another key does nothing to it either. -/
theorem only_touch_of_ne (now : Nat) (h : other ≠ key) :
    (c.touch now other).only key = c.only key := by
  rw [only_touch, touch_eq_self (find?_only_of_ne h)]

/-- Nor does an insertion under another key, where there is room. -/
theorem Roomy.only_insert_of_ne (h : Roomy keys c) (hother : other ∈ keys) (hne : other ≠ key)
    (now : Nat) (value : ν) : (c.insert now other value).only key = c.only key := by
  have hrest : (c.insert now other value).only key = (c.erase other).only key := by
    refine ext_entries rfl ?_
    rw [only, entries_filter, entries_insert_of_room (h.room hother),
      List.filter_cons_of_neg (by simpa using hne)]
    rfl
  exact hrest.trans (only_erase_of_ne hne)

/-! ### What an operation does to the part -/

/-- A read does to the part under its key what it does to the whole, and gives the same. -/
theorem get_only (c : Cache κ ν) (now : Nat) (key : κ) :
    (c.only key).get now key = ((c.get now key).1, (c.get now key).2.only key) := by
  cases hfound : c.find? key with
  | none =>
      rw [get_of_missing hfound, get_of_missing ((find?_only c key).trans hfound)]
  | some e =>
      have hpart : (c.only key).find? key = some e := (find?_only c key).trans hfound
      cases hexpired : c.isExpired now e with
      | true => rw [get_of_expired hfound hexpired, get_of_expired hpart hexpired, only_erase]
      | false => rw [get_of_live hfound hexpired, get_of_live hpart hexpired, only_touch]

/-- So does a removal on a condition. -/
theorem invalidateIf_only (c : Cache κ ν) (key : κ) (condition : ν → Bool) :
    (c.only key).invalidateIf key condition =
      ((c.invalidateIf key condition).1, (c.invalidateIf key condition).2.only key) := by
  unfold invalidateIf
  rw [find?_only]
  cases c.find? key with
  | none => rfl
  | some e =>
      by_cases hholds : condition e.value = true
      · simp only [if_pos hholds, only_erase]
      · simp only [if_neg hholds]

/-- The part under a key knows the key as the whole does. -/
theorem contains_only (c : Cache κ ν) (now : Nat) (key : κ) :
    (c.only key).contains now key = c.contains now key := by
  unfold contains
  rw [find?_only]
  rfl

/-- Where there is room, an insertion under the key does to its part what it does to the whole. -/
theorem Roomy.only_insert (h : Roomy keys c) (hkey : key ∈ keys) (now : Nat) (value : ν) :
    (c.insert now key value).only key = (c.only key).insert now key value := by
  have hpart : Roomy keys (c.only key) := h.filter _
  refine ext_entries rfl ?_
  rw [entries_insert_of_room (hpart.room hkey), ← only_erase, only, entries_filter,
    entries_insert_of_room (h.room hkey), List.filter_cons_of_pos (by simp)]
  rfl

/-- So does a sweep. -/
theorem Roomy.only_sweep (h : Roomy keys c) (now : Nat) (key : κ) :
    (c.sweep now).2.only key = ((c.only key).sweep now).2 := by
  have hpart : Roomy keys (c.only key) := h.filter _
  rw [h.sweep_eq, hpart.sweep_eq, only_filter]
  rfl

/-! ### Operations -/

/-- An operation that asks about a key is answered from the part under that key. -/
theorem answer_only (hasks : op.asks key = true) :
    ((c.only key).step now op).1 = (c.step now op).1 := by
  cases op with
  | get other =>
      obtain rfl : other = key := of_decide_eq_true hasks
      exact congrArg (fun answer => Answer.value answer.1) (get_only c now other)
  | contains other =>
      obtain rfl : other = key := of_decide_eq_true hasks
      exact congrArg Answer.flag (contains_only c now other)
  | invalidate other =>
      obtain rfl : other = key := of_decide_eq_true hasks
      exact congrArg (fun answer => Answer.flag answer.1) (invalidateIf_only c other fun _ => true)
  | invalidateIf other condition =>
      obtain rfl : other = key := of_decide_eq_true hasks
      exact congrArg (fun answer => Answer.flag answer.1) (invalidateIf_only c other condition)
  | _ => cases hasks

/-- An operation that concerns a key does to the part under the key what it does to the whole. -/
theorem Roomy.only_step (h : Roomy keys c) (now : Nat) (hop : ∀ key ∈ op.inserted?, key ∈ keys)
    (hconcerns : op.concerns key = true) :
    (c.step now op).2.only key = ((c.only key).step now op).2 := by
  cases op with
  | get other =>
      obtain rfl : other = key := of_decide_eq_true hconcerns
      exact (congrArg Prod.snd (get_only c now other)).symm
  | insert other value =>
      obtain rfl : other = key := of_decide_eq_true hconcerns
      exact h.only_insert (hop other rfl) now value
  | invalidate other =>
      obtain rfl : other = key := of_decide_eq_true hconcerns
      exact (congrArg Prod.snd (invalidateIf_only c other fun _ => true)).symm
  | invalidateIf other condition =>
      obtain rfl : other = key := of_decide_eq_true hconcerns
      exact (congrArg Prod.snd (invalidateIf_only c other condition)).symm
  | clear => rfl
  | sweep => exact h.only_sweep now key
  | contains other => rfl
  | size => cases hconcerns
  | isEmpty => cases hconcerns

/-- An operation that does not concern a key does nothing to the part under it. -/
theorem Roomy.only_step_of_other (h : Roomy keys c) (now : Nat)
    (hop : ∀ key ∈ op.inserted?, key ∈ keys) (hother : op.concerns key = false) :
    (c.step now op).2.only key = c.only key := by
  have hinvalidate : ∀ other condition, other ≠ key →
      (c.invalidateIf other condition).2.only key = c.only key := by
    intro other condition hne
    rcases invalidateIf_cases c other condition with hsame | herased
    · rw [hsame]
    · rw [herased, only_erase_of_ne hne]
  cases op with
  | get other =>
      have hne : other ≠ key := of_decide_eq_false hother
      change (c.get now other).2.only key = c.only key
      rcases get_cases c now other with hsame | herased | htouched
      · rw [hsame]
      · rw [herased, only_erase_of_ne hne]
      · rw [htouched, only_touch_of_ne now hne]
  | insert other value =>
      exact h.only_insert_of_ne (hop other rfl) (of_decide_eq_false hother) now value
  | invalidate other => exact hinvalidate other (fun _ => true) (of_decide_eq_false hother)
  | invalidateIf other condition => exact hinvalidate other condition (of_decide_eq_false hother)
  | clear => cases hother
  | sweep => cases hother
  | contains other => rfl
  | size => rfl
  | isEmpty => rfl

theorem concerns_of_asks (hasks : op.asks key = true) : op.concerns key = true := by
  cases op with
  | insert => cases hasks
  | clear => rfl
  | sweep => rfl
  | _ => exact hasks

/-! ### Runs -/

variable {ops : List (Nat × Op κ ν)}

theorem answersOn_cons (key : κ) (c : Cache κ ν) (now : Nat) (op : Op κ ν)
    (rest : List (Nat × Op κ ν)) :
    answersOn key c ((now, op) :: rest) =
      (if op.asks key then [c.deed now op] else []) ++ answersOn key (c.step now op).2 rest := by
  cases hasks : op.asks key with
  | true => exact List.filter_cons_of_pos hasks
  | false => exact List.filter_cons_of_neg (by simp [deed, hasks])

/-- The part under a key goes through the run of the operations that concern the key. -/
theorem Roomy.only_run (h : Roomy keys c)
    (hops : ∀ timed ∈ ops, ∀ key ∈ timed.2.inserted?, key ∈ keys) (key : κ) :
    answersOn key c ops = answersOn key (c.only key) (opsOn key ops) ∧
      (c.run ops).2.only key = ((c.only key).run (opsOn key ops)).2 := by
  induction ops generalizing c with
  | nil => exact ⟨rfl, rfl⟩
  | cons timed rest ih =>
      obtain ⟨now, op⟩ := timed
      have hop : ∀ key ∈ op.inserted?, key ∈ keys := hops (now, op) List.mem_cons_self
      obtain ⟨hanswers, hpart⟩ :=
        ih (h.step now hop) fun timed htimed => hops timed (List.mem_cons_of_mem _ htimed)
      cases hconcerns : op.concerns key with
      | true =>
          have hkeep : opsOn key ((now, op) :: rest) = (now, op) :: opsOn key rest :=
            List.filter_cons_of_pos hconcerns
          rw [hkeep, answersOn_cons, answersOn_cons, hanswers, run_cons, run_cons, hpart,
            h.only_step now hop hconcerns]
          refine ⟨?_, rfl⟩
          cases hasks : op.asks key with
          | true => simp only [deed, answer_only hasks]
          | false => rfl
      | false =>
          have hskip : opsOn key ((now, op) :: rest) = opsOn key rest :=
            List.filter_cons_of_neg (by simp [hconcerns])
          have hsilent : op.asks key = false := by
            by_contra hasks
            rw [concerns_of_asks (Bool.not_eq_false _ ▸ hasks)] at hconcerns
            cases hconcerns
          rw [hskip, answersOn_cons, hsilent, hanswers, run_cons, hpart,
            h.only_step_of_other now hop hconcerns]
          exact ⟨rfl, rfl⟩

/-- **Below the bound keys do not interfere.** If a run inserts under no more keys than the cache
has places, then whatever is asked of it about a key, at whatever times, is answered as in the run
of the operations that concern that key: those on the key itself, and those that clear or sweep the
whole cache. In the end the cache holds the same under the key, touched at the same time. -/
theorem other_keys_unseen (bounds : Bounds) (ops : List (Nat × Op κ ν))
    (hplaces : (insertedKeys ops).card ≤ bounds.maxEntries) (key : κ) :
    answersOn key (empty bounds) ops = answersOn key (empty bounds) (opsOn key ops) ∧
      ((empty bounds : Cache κ ν).run ops).2.find? key =
        ((empty bounds : Cache κ ν).run (opsOn key ops)).2.find? key := by
  have hroomy : Roomy (insertedKeys ops) (empty bounds : Cache κ ν) :=
    ⟨hplaces, fun e he => absurd he List.not_mem_nil⟩
  obtain ⟨hanswers, hpart⟩ := hroomy.only_run
    (fun timed htimed key hkey => mem_insertedKeys.mpr ⟨timed, htimed, hkey⟩) key
  refine ⟨hanswers, ?_⟩
  rw [← find?_only, hpart]
  rfl

/-- Room for two keys. -/
def pairRoom : Bounds := .ofLimits 2 ⟨10⟩

/-- Two keys take turns. The entry under one of them expires, and its place stays taken while the
other key is inserted under again. -/
def sharedUse : List (Nat × Op String Nat) :=
  [(1, .insert "a" 1), (1, .insert "b" 2), (5, .get "b"), (12, .contains "a"), (12, .insert "b" 3),
    (13, .size), (13, .invalidateIf "a" (· == 1)), (14, .invalidateIf "b" (· == 2)),
    (15, .insert "a" 4), (16, .get "b"), (26, .sweep), (27, .contains "b")]

/-- What is asked about the second key is answered as if the first one were not there. -/
theorem answers_of_sharedUse :
    (insertedKeys sharedUse).card ≤ pairRoom.maxEntries ∧
      (opsOn "b" sharedUse).length = 7 ∧
      (answersOn "b" (empty pairRoom) sharedUse).map Deed.answer =
        [.value (some 2), .flag false, .value (some 3), .flag false] ∧
      ((empty pairRoom : Cache String Nat).run sharedUse).2.find? "b" = none := by
  have hplaces : (insertedKeys sharedUse).card ≤ pairRoom.maxEntries := by decide
  obtain ⟨hanswers, hfound⟩ := other_keys_unseen pairRoom sharedUse hplaces "b"
  refine ⟨hplaces, rfl, ?_, ?_⟩
  · rw [hanswers]
    rfl
  · rw [hfound]
    rfl

end AccessControl.Cache
