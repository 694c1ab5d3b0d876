import AccessControl.Proofs.Cache.Recency

/-!
A bounded list beside one that forgets nothing.

A cache drops entries for two reasons: they have been idle for too long, or there were too many.
`Agrees` says that neither shows in what is fresh: from some time on, the fresh entries of the
bounded list are those of the full one, cut to the bound. Expired entries may fill places of the
bounded list; since they lie behind all fresh ones, they are the first to be evicted
(`filter_fresh_take`).

* `Agrees.put`: putting the same new entry in front of both keeps the agreement.
* `Agrees.without_stale`, `Agrees.sweep`: removing what is not fresh keeps it.
* `Agrees.mem_fresh_iff`: what is found fresh is what the full list holds among its first entries.
* `Cache.Holds` is the same for a cache, with the operations of the cache (`Holds.touch`,
  `Holds.insert`, `Holds.erase_stale`, `Holds.sweep`, `Holds.found_iff`, `Holds.size_sweep`).
-/

namespace AccessControl

namespace Entry

variable {κ ν : Type} {bound idle now since : Nat} {key : κ} {e : Entry κ ν}
  {r full : List (Entry κ ν)}

/-- From a time on, the fresh entries are those of a full list, as far as the bound has room. -/
def Agrees (bound idle since : Nat) (r full : List (Entry κ ν)) : Prop :=
  ∀ now, since ≤ now →
    r.filter (fresh idle now) = (full.filter (fresh idle now)).take bound

/-! ### Freshness and order -/

/-- What is fresh at a time was fresh at every earlier one. -/
theorem fresh_of_le (h : since ≤ now) (hfresh : e.fresh idle now = true) :
    e.fresh idle since = true := by
  simp only [fresh, decide_eq_true_eq] at hfresh ⊢
  omega

/-- What is fresh at a time is not lost among what was fresh before. -/
theorem filter_fresh_filter_fresh (h : since ≤ now) (r : List (Entry κ ν)) :
    (r.filter (fresh idle since)).filter (fresh idle now) = r.filter (fresh idle now) := by
  rw [List.filter_filter]
  refine List.filter_congr fun e _ => ?_
  cases hfresh : e.fresh idle now with
  | false => rfl
  | true => simp [fresh_of_le h hfresh]

/-- Behind an entry that is not fresh nothing is. -/
theorem filter_fresh_eq_nil (hfresh : e.fresh idle now = false)
    (h : ∀ other ∈ r, other.touched ≤ e.touched) : r.filter (fresh idle now) = [] := by
  refine List.filter_eq_nil_iff.mpr fun other hother => ?_
  simp only [fresh, decide_eq_false_iff_not, decide_eq_true_eq] at hfresh ⊢
  have := h other hother
  omega

/-- In a list by recency the fresh entries are in front, so a cut takes the others first. -/
theorem filter_fresh_take (h : ByRecency r) (n : Nat) :
    (r.take n).filter (fresh idle now) = (r.filter (fresh idle now)).take n := by
  induction r generalizing n with
  | nil => simp
  | cons e rest ih =>
      obtain ⟨hlater, hrest⟩ := List.pairwise_cons.mp h
      cases n with
      | zero => rfl
      | succ n =>
          rw [List.take_succ_cons]
          cases hfresh : e.fresh idle now with
          | true =>
              rw [List.filter_cons_of_pos hfresh, List.filter_cons_of_pos hfresh,
                List.take_succ_cons, ih hrest]
          | false =>
              have hnil : rest.filter (fresh idle now) = [] :=
                filter_fresh_eq_nil hfresh fun other hother => Nat.le_of_lt (hlater other hother)
              rw [List.filter_cons_of_neg (by simp [hfresh]),
                List.filter_cons_of_neg (by simp [hfresh]), ih hrest, hnil, List.take_nil,
                List.take_nil]

theorem Agrees.mono (h : Agrees bound idle since r full) (hle : since ≤ now) :
    Agrees bound idle now r full :=
  fun later hlater => h later (Nat.le_trans hle hlater)

theorem Agrees.nil (bound idle since : Nat) :
    Agrees bound idle since ([] : List (Entry κ ν)) [] := by
  intro now _
  simp

/-- What is found fresh is what the full list holds fresh among its first entries. -/
theorem Agrees.mem_fresh_iff (h : Agrees bound idle now r full) (hfull : ByRecency full) :
    e ∈ r ∧ e.fresh idle now = true ↔ e ∈ full.take bound ∧ e.fresh idle now = true := by
  rw [← List.mem_filter, ← List.mem_filter, h now (Nat.le_refl now), filter_fresh_take hfull]

/-! ### What keeps the agreement -/

/-- Removing everything that is not fresh keeps the agreement. -/
theorem Agrees.sweep (h : Agrees bound idle since r full) :
    Agrees bound idle since (r.filter (fresh idle since)) full := by
  intro now hnow
  rw [← h now hnow, filter_fresh_filter_fresh hnow]

variable [DecidableEq κ]

theorem without_filter (key : κ) (p : Entry κ ν → Bool) (r : List (Entry κ ν)) :
    without key (r.filter p) = (without key r).filter p := by
  simp only [without, List.filter_filter, Bool.and_comm]

/-- At most one entry is under a key, so one entry more than is taken is enough to choose from. -/
theorem take_without_take (h : (r.map Entry.key).Nodup) (n : Nat) :
    (without key (r.take (n + 1))).take n = (without key r).take n := by
  induction r generalizing n with
  | nil => simp
  | cons e rest ih =>
      rw [List.map_cons, List.nodup_cons] at h
      rw [List.take_succ_cons]
      by_cases hkey : e.key = key
      · subst hkey
        have hrest : ∀ other ∈ rest, other.key ≠ e.key := fun other hother hsame =>
          h.1 (hsame ▸ List.mem_map_of_mem hother)
        rw [without_cons_self, without_cons_self, without_eq_self hrest,
          without_eq_self fun other hother => hrest other (List.mem_of_mem_take hother),
          List.take_take, Nat.min_self]
      · rw [without_cons_of_ne hkey, without_cons_of_ne hkey]
        cases n with
        | zero => rfl
        | succ n => rw [List.take_succ_cons, List.take_succ_cons, ih h.2]

/-- Putting a new entry in front of both lists keeps the agreement. -/
theorem Agrees.put (h : Agrees bound idle since r full) (hsince : since ≤ e.touched)
    (hr : ByRecency r) (hfull : (full.map Entry.key).Nodup)
    (hlaterR : ∀ other ∈ r, other.touched < e.touched)
    (hlaterFull : ∀ other ∈ full, other.touched < e.touched) :
    Agrees bound idle e.touched (put bound e r) (e :: without e.key full) := by
  intro now hnow
  rw [Entry.put, filter_fresh_take (hr.cons_without hlaterR)]
  cases hfresh : e.fresh idle now with
  | false =>
      -- Where the new entry has expired, everything behind it has.
      rw [List.filter_cons_of_neg (by simp [hfresh]), List.filter_cons_of_neg (by simp [hfresh]),
        filter_fresh_eq_nil hfresh fun other hother =>
          Nat.le_of_lt (hlaterR other (mem_without.mp hother).1),
        filter_fresh_eq_nil hfresh fun other hother =>
          Nat.le_of_lt (hlaterFull other (mem_without.mp hother).1)]
  | true =>
      have hkeys : ((full.filter (fresh idle now)).map Entry.key).Nodup :=
        hfull.sublist (List.filter_sublist.map _)
      rw [List.filter_cons_of_pos hfresh, List.filter_cons_of_pos hfresh, ← without_filter,
        ← without_filter, h now (Nat.le_trans hsince hnow)]
      cases bound with
      | zero => rfl
      | succ n => rw [List.take_succ_cons, List.take_succ_cons, take_without_take hkeys]

/-- An entry that is not fresh is not missed among the fresh ones of any later time. -/
theorem filter_fresh_without_stale (h : since ≤ now)
    (hstale : ∀ e ∈ r, e.key = key → e.fresh idle since = false) :
    (without key r).filter (fresh idle now) = r.filter (fresh idle now) := by
  rw [without, List.filter_filter]
  refine List.filter_congr fun e he => ?_
  cases hfresh : e.fresh idle now with
  | false => rfl
  | true =>
      have hkey : e.key ≠ key := by
        intro hsame
        have hold := hstale e he hsame
        rw [fresh_of_le h hfresh] at hold
        cases hold
      simpa using hkey

/-- Removing an entry that is not fresh keeps the agreement. -/
theorem Agrees.without_stale (h : Agrees bound idle since r full)
    (hstale : ∀ e ∈ r, e.key = key → e.fresh idle since = false) :
    Agrees bound idle since (without key r) full := by
  intro now hnow
  rw [← h now hnow, filter_fresh_without_stale hnow hstale]

end Entry

/-! ### Caches -/

namespace Cache

variable {κ ν : Type} {c : Cache κ ν} {now later : Nat} {full : List (Entry κ ν)}

/-- Before a time, a cache holds the fresh entries of a full list, as far as it has room. -/
def Holds (c : Cache κ ν) (now : Nat) (full : List (Entry κ ν)) : Prop :=
  ∃ r, c.Listed r ∧ r.length ≤ c.bounds.maxEntries ∧ (∀ e ∈ r, e.touched < now) ∧
    Entry.Agrees c.bounds.maxEntries c.bounds.idleTimeout.nanos now r full

theorem Holds.empty (bounds : Bounds) (now : Nat) :
    (Cache.empty bounds : Cache κ ν).Holds now [] :=
  ⟨[], Listed.empty bounds, Nat.zero_le _, fun _ he => absurd he List.not_mem_nil,
    Entry.Agrees.nil _ _ _⟩

theorem Holds.mono (h : c.Holds now full) (hle : now ≤ later) : c.Holds later full := by
  obtain ⟨r, hlisted, hbound, hbefore, hagrees⟩ := h
  exact ⟨r, hlisted, hbound, fun e he => Nat.lt_of_lt_of_le (hbefore e he) hle, hagrees.mono hle⟩

variable [DecidableEq κ] {key : κ}

/-- What is found and has not expired is what the full list holds fresh among its first entries. -/
theorem Holds.found_iff (h : c.Holds now full) (hfull : Entry.ByRecency full)
    (hnow : now < Clock.limit) {e : Entry κ ν} :
    c.find? key = some e ∧ c.isExpired now e = false ↔
      (e ∈ full.take c.bounds.maxEntries ∧ e.fresh c.bounds.idleTimeout.nanos now = true) ∧
        e.key = key := by
  obtain ⟨r, hlisted, -, -, hagrees⟩ := h
  rw [hlisted.find?_eq_some_iff, isExpired_eq hnow, Bool.not_eq_false',
    ← hagrees.mem_fresh_iff hfull]
  exact and_right_comm

/-- A touched entry is the first of the full list from then on. -/
theorem Holds.touch (h : c.Holds now full) (hkeys : (full.map Entry.key).Nodup)
    (hbefore : ∀ e ∈ full, e.touched < now) {e : Entry κ ν} (hfound : c.find? key = some e)
    (hnow : now < Clock.limit) (hlater : now < later) :
    (c.touch now key).Holds later (⟨key, e.value, now⟩ :: Entry.without key full) := by
  obtain ⟨r, hlisted, hbound, hbeforeR, hagrees⟩ := h
  obtain ⟨he, rfl⟩ := hlisted.find?_eq_some_iff.mp hfound
  have htouched := (MirroredBy.mk hlisted hbound hbeforeR).touch he hnow
  -- The list does not grow, so nothing is cut.
  have hput : Entry.put c.bounds.maxEntries ⟨e.key, e.value, now⟩ r =
      ⟨e.key, e.value, now⟩ :: Entry.without e.key r :=
    List.take_of_length_le htouched.within
  have hagreesPut := hagrees.put (e := ⟨e.key, e.value, now⟩) (Nat.le_refl now) hlisted.sorted hkeys
    hbeforeR hbefore
  rw [hput] at hagreesPut
  exact ⟨_, htouched.listed, htouched.within, (htouched.mono hlater).before,
    hagreesPut.mono (Nat.le_of_lt hlater)⟩

/-- An inserted entry is the first of the full list from then on. -/
theorem Holds.insert (h : c.Holds now full) (hkeys : (full.map Entry.key).Nodup)
    (hbefore : ∀ e ∈ full, e.touched < now) (hnow : now < Clock.limit) (hlater : now < later)
    (value : ν) :
    (c.insert now key value).Holds later (⟨key, value, now⟩ :: Entry.without key full) := by
  obtain ⟨r, hlisted, hbound, hbeforeR, hagrees⟩ := h
  have hinserted := (MirroredBy.mk hlisted hbound hbeforeR).insert hnow key value
  have hagreesPut := hagrees.put (e := ⟨key, value, now⟩) (Nat.le_refl now) hlisted.sorted hkeys
    hbeforeR hbefore
  exact ⟨_, hinserted.listed, hinserted.within, (hinserted.mono hlater).before,
    hagreesPut.mono (Nat.le_of_lt hlater)⟩

/-- Removing an expired entry is not noticed. -/
theorem Holds.erase_stale (h : c.Holds now full) (hnow : now < Clock.limit)
    (hstale : ∀ e, c.find? key = some e → c.isExpired now e = true) :
    (c.erase key).Holds now full := by
  obtain ⟨r, hlisted, hbound, hbeforeR, hagrees⟩ := h
  have herased := (MirroredBy.mk hlisted hbound hbeforeR).erase key
  refine ⟨_, herased.listed, herased.within, herased.before,
    hagrees.without_stale fun e he hkey => ?_⟩
  have hexpired := hstale e (hlisted.find?_eq_some_iff.mpr ⟨he, hkey⟩)
  rwa [isExpired_eq hnow, Bool.not_eq_true'] at hexpired

/-- After a sweep there are as many entries as are fresh in the full list, as far as there is
room. -/
theorem Holds.size_sweep (h : c.Holds now full) (hnow : now < Clock.limit) :
    (c.sweep now).2.size = min c.bounds.maxEntries
      (full.filter (Entry.fresh c.bounds.idleTimeout.nanos now)).length := by
  obtain ⟨r, hlisted, -, -, hagrees⟩ := h
  rw [(hlisted.sweep hnow).size_eq, hagrees now (Nat.le_refl now), List.take_take, Nat.min_self,
    List.length_take]

/-- A sweep is not noticed. -/
theorem Holds.sweep (h : c.Holds now full) (hnow : now < Clock.limit) :
    (c.sweep now).2.Holds now full := by
  obtain ⟨r, hlisted, hbound, hbeforeR, hagrees⟩ := h
  have hswept := (MirroredBy.mk hlisted hbound hbeforeR).sweep hnow
  exact ⟨_, hswept.listed, hswept.within, hswept.before, hagrees.sweep⟩

end Cache

end AccessControl
