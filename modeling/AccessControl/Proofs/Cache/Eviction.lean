import Mathlib.Logic.Relation
import AccessControl.Proofs.Cache.Recency

/-!
Eviction, whatever the clock reads.

Where several entries may have been touched at one time there is no list by recency, and more than
one entry may be the next to go. `Pass` is one round of eviction with this choice left open, and
`Evicted` is what rounds may leave in the end. Each round removes one entry, and what is gone was
touched no later than what is left (`Passes.shrinks`). So the number and the order are the same for
all choices, and the cache makes one of them (`evicted_enforceBound`).

Main statement: `bound_kept_and_oldest_evicted`.
-/

namespace AccessControl

namespace Entry

variable {κ ν : Type} [DecidableEq κ] {bound : Nat} {before between after : List (Entry κ ν)}

/-! ### Rounds of eviction -/

/-- One round: there are more entries than the bound, and one than which none was touched earlier is
removed. -/
inductive Pass (bound : Nat) (before : List (Entry κ ν)) : List (Entry κ ν) → Prop
  | evict (victim : Entry κ ν) (hover : bound < before.length) (hvictim : victim ∈ before)
      (holdest : ∀ other ∈ before, victim.touched ≤ other.touched) :
      Pass bound before (without victim.key before)

/-- Rounds one after the other. -/
abbrev Passes (bound : Nat) : List (Entry κ ν) → List (Entry κ ν) → Prop :=
  Relation.ReflTransGen (Pass bound)

/-- What rounds leave when there are no more entries than the bound. -/
def Evicted (bound : Nat) (before after : List (Entry κ ν)) : Prop :=
  Passes bound before after ∧ after.length ≤ bound

/-- What is gone was touched no later than what is left. -/
def GoneIsOldest (before after : List (Entry κ ν)) : Prop :=
  ∀ gone ∈ before, gone ∉ after → ∀ kept ∈ after, gone.touched ≤ kept.touched

/-- No sequence of rounds goes on for ever. -/
theorem wellFounded_pass (bound : Nat) :
    WellFounded fun after before : List (Entry κ ν) => Pass bound before after := by
  refine Subrelation.wf ?_ (measure List.length).wf
  rintro after before ⟨victim, -, hvictim, -⟩
  exact List.length_filter_lt_length_iff_exists.mpr ⟨victim, hvictim, by simp⟩

omit [DecidableEq κ] in
/-- Where there are more entries than the bound, there is an oldest one. -/
theorem exists_oldest (hover : bound < before.length) : ∃ victim, oldest? before = some victim := by
  apply Option.ne_none_iff_exists'.mp
  intro hnone
  rw [oldest?_eq_none hnone] at hover
  exact absurd hover (Nat.not_lt_zero bound)

/-- As long as there are more entries than the bound, there is one to go. -/
theorem exists_pass (hover : bound < before.length) : ∃ after, Pass bound before after := by
  obtain ⟨victim, hfound⟩ := exists_oldest hover
  obtain ⟨hvictim, holdest⟩ := oldest?_spec hfound
  exact ⟨_, .evict victim hover hvictim holdest⟩

theorem Pass.over (h : Pass bound before after) : bound < before.length := by
  cases h with
  | evict _ hover _ _ => exact hover

theorem Pass.sublist (h : Pass bound before after) : after.Sublist before := by
  cases h with
  | evict => exact List.filter_sublist

/-- Where keys are distinct, a round removes one entry. -/
theorem Pass.length_add_one (h : Pass bound before after) (hkeys : (before.map Entry.key).Nodup) :
    after.length + 1 = before.length := by
  cases h with
  | evict victim hover hvictim holdest =>
      rw [← eraseP_eq_without hkeys, List.length_eraseP_of_mem hvictim (by simp)]
      omega

/-- Where keys are distinct, the entry that a round removes is the one that was chosen. -/
theorem Pass.goneIsOldest (h : Pass bound before after) (hkeys : (before.map Entry.key).Nodup) :
    GoneIsOldest before after := by
  cases h with
  | evict victim hover hvictim holdest =>
      intro gone hgone hmissing kept hkept
      have hkey : gone.key = victim.key := by
        by_contra hother
        exact hmissing (mem_without.mpr ⟨hgone, hother⟩)
      rw [List.inj_on_of_nodup_map hkeys hgone hvictim hkey]
      exact holdest kept (mem_without.mp hkept).1

theorem GoneIsOldest.trans (h : GoneIsOldest before between) (h' : GoneIsOldest between after)
    (hsub : after ⊆ between) : GoneIsOldest before after := by
  intro gone hgone hmissing kept hkept
  by_cases hbetween : gone ∈ between
  · exact h' gone hbetween hmissing kept hkept
  · exact h gone hgone hbetween kept (hsub hkept)

/-- Rounds remove entries and change none, they stop at the bound, and what they remove was touched
no later than what they leave. -/
theorem Passes.shrinks (h : Passes bound before after) (hkeys : (before.map Entry.key).Nodup) :
    after.Sublist before ∧ min before.length bound ≤ after.length ∧ GoneIsOldest before after := by
  induction h with
  | refl =>
      exact ⟨List.Sublist.refl _, Nat.min_le_left _ _, fun gone hgone hmissing =>
        absurd hgone hmissing⟩
  | @tail between after hfirst hlast ih =>
      obtain ⟨hsub, hlength, holdest⟩ := ih
      have hbetween : (between.map Entry.key).Nodup := hkeys.sublist (hsub.map _)
      refine ⟨hlast.sublist.trans hsub, ?_, ?_⟩
      · have hone := hlast.length_add_one hbetween
        have hover := hlast.over
        omega
      · exact holdest.trans (hlast.goneIsOldest hbetween) hlast.sublist.subset

/-- However the oldest entries are chosen, as many are left as the bound allows. -/
theorem Evicted.length_eq (h : Evicted bound before after) (hkeys : (before.map Entry.key).Nodup) :
    after.length = min before.length bound := by
  obtain ⟨hsub, hlength, -⟩ := Passes.shrinks h.1 hkeys
  have := hsub.length_le
  have := h.2
  omega

/-! ### The rounds of the cache -/

/-- Dropping an oldest entry is a round. -/
theorem pass_dropOldest (hkeys : (before.map Entry.key).Nodup) (hover : bound < before.length) :
    Pass bound before (dropOldest before) := by
  obtain ⟨victim, hfound⟩ := exists_oldest hover
  obtain ⟨hvictim, holdest⟩ := oldest?_spec hfound
  have hdrop : dropOldest before = without victim.key before := by
    simp only [dropOldest, hfound, eraseP_eq_without hkeys]
  rw [hdrop]
  exact .evict victim hover hvictim holdest

/-- As many evictions as there are entries too many are rounds down to the bound. -/
theorem evicted_evict (hkeys : (before.map Entry.key).Nodup) {count : Nat}
    (hcount : before.length - bound = count) : Evicted bound before (evict count before) := by
  induction count generalizing before with
  | zero => exact ⟨Relation.ReflTransGen.refl, Nat.sub_eq_zero_iff_le.mp hcount⟩
  | succ count ih =>
      have hpass : Pass bound before (dropOldest before) := pass_dropOldest hkeys (by omega)
      have hone := hpass.length_add_one hkeys
      obtain ⟨hpasses, hwithin⟩ := ih (hkeys.sublist (hpass.sublist.map _)) (by omega)
      exact ⟨Relation.ReflTransGen.head hpass hpasses, hwithin⟩

end Entry

namespace Cache

variable {κ ν : Type} [DecidableEq κ] {c : Cache κ ν} {now : Nat}

/-- Enforcing the bound evicts the oldest entries. -/
theorem evicted_enforceBound (c : Cache κ ν) :
    Entry.Evicted c.bounds.maxEntries c.entries c.enforceBound.entries :=
  Entry.evicted_evict c.distinct rfl

/-- An insertion evicts the oldest entries, the inserted one among those that are looked at. -/
theorem evicted_insert (c : Cache κ ν) (now : Nat) (key : κ) (value : ν) :
    Entry.Evicted c.bounds.maxEntries (⟨key, value, Clock.reading now⟩ :: (c.erase key).entries)
      (c.insert now key value).entries := by
  have hfree : key ∉ (c.erase key).entries.map Entry.key := by
    simp [erase, filter, restrict]
  refine Entry.evicted_evict ?_ rfl
  exact List.nodup_cons.mpr ⟨hfree, (c.erase key).distinct⟩

theorem size_enforceBound (c : Cache κ ν) :
    c.enforceBound.size = min c.size c.bounds.maxEntries :=
  (evicted_enforceBound c).length_eq c.distinct

/-! ### The bound -/

/-- No operation brings a cache out of its bounds. -/
theorem step_within (h : c.size ≤ c.bounds.maxEntries) (op : Op κ ν) :
    (c.step now op).2.size ≤ c.bounds.maxEntries := by
  have herase : ∀ key, (c.erase key).size ≤ c.bounds.maxEntries := fun key =>
    Nat.le_trans (List.length_filter_le _ _) h
  have hinvalidate : ∀ key condition,
      (c.invalidateIf key condition).2.size ≤ c.bounds.maxEntries := by
    intro key condition
    rcases invalidateIf_cases c key condition with hsame | herased
    · rw [hsame]
      exact h
    · rw [herased]
      exact herase key
  cases op with
  | get key =>
      show (c.get now key).2.size ≤ c.bounds.maxEntries
      unfold get
      split
      · exact h
      · split
        · exact herase key
        · exact Nat.le_trans (Nat.le_of_eq (List.length_map _)) h
  | contains key => exact h
  | insert key value =>
      show (enforceBound _).size ≤ c.bounds.maxEntries
      rw [size_enforceBound]
      exact Nat.min_le_right _ _
  | invalidate key => exact hinvalidate key fun _ => true
  | invalidateIf key condition => exact hinvalidate key condition
  | clear => exact Nat.zero_le _
  | sweep =>
      show (enforceBound _).size ≤ c.bounds.maxEntries
      rw [size_enforceBound]
      exact Nat.min_le_right _ _
  | size => exact h
  | isEmpty => exact h

/-- No run brings a cache out of its bounds, whatever the clock reads. -/
theorem run_within {ops : List (Nat × Op κ ν)} (h : c.size ≤ c.bounds.maxEntries) :
    (c.run ops).2.size ≤ c.bounds.maxEntries := by
  induction ops generalizing c with
  | nil => exact h
  | cons timed rest ih =>
      obtain ⟨time, op⟩ := timed
      have hstep : (c.step time op).2.size ≤ c.bounds.maxEntries := step_within h op
      rw [← step_bounds c time op] at hstep ⊢
      exact ih hstep

/-! ### Sweeps -/

/-- A sweep tells how many entries are gone: the expired ones, and those that are still too many. -/
theorem size_sweep (c : Cache κ ν) (now : Nat) :
    (c.sweep now).1 + (c.sweep now).2.size = c.size ∧
      (c.sweep now).1 = (c.filter (c.isExpired now)).size +
        ((c.filter fun e => !c.isExpired now e).size - c.bounds.maxEntries) := by
  have htotal := sweep_add_size c now
  have hsplit := size_eq_expired_add_live c now
  have hkept : (c.sweep now).2.size =
      min (c.filter fun e => !c.isExpired now e).size c.bounds.maxEntries := size_enforceBound _
  refine ⟨htotal, ?_⟩
  omega

/-- **The bound is kept, and the oldest go.** Whatever is asked of a cache at whatever times, it never
has more entries than its bound. Eviction, which ends every insertion and every sweep, comes to an
end whatever entries it begins with and however the oldest of them are chosen. As many entries go as
there are too many; the others stay as they are, and whatever goes was touched no later than whatever
stays, so that nothing alive goes while something that has expired stays. A sweep tells how many
entries are gone: those that had expired, and those that were still too many. -/
theorem bound_kept_and_oldest_evicted :
    (∀ (bounds : Bounds) (ops : List (Nat × Op κ ν)),
      ((Cache.empty bounds).run ops).2.size ≤ bounds.maxEntries) ∧
    (∀ bound : Nat,
      (WellFounded fun after before : List (Entry κ ν) => Entry.Pass bound before after) ∧
      ∀ before : List (Entry κ ν), bound < before.length → ∃ after, Entry.Pass bound before after) ∧
    (∀ (c : Cache κ ν) (left : List (Entry κ ν)),
      Entry.Evicted c.bounds.maxEntries c.entries left →
      left.Sublist c.entries ∧ left.length + (c.size - c.bounds.maxEntries) = c.size ∧
      ∀ gone ∈ c.entries, gone ∉ left → ∀ kept ∈ left, gone.touched ≤ kept.touched ∧
        ∀ now, c.isExpired now kept = true → c.isExpired now gone = true) ∧
    (∀ c : Cache κ ν, Entry.Evicted c.bounds.maxEntries c.entries c.enforceBound.entries) ∧
    (∀ (c : Cache κ ν) (now : Nat) (key : κ) (value : ν),
      Entry.Evicted c.bounds.maxEntries (⟨key, value, Clock.reading now⟩ :: (c.erase key).entries)
        (c.insert now key value).entries) ∧
    ∀ (c : Cache κ ν) (now : Nat),
      Entry.Evicted c.bounds.maxEntries (c.filter fun e => !c.isExpired now e).entries
        (c.sweep now).2.entries ∧
      (c.sweep now).1 + (c.sweep now).2.size = c.size ∧
      (c.sweep now).1 = (c.filter (c.isExpired now)).size +
        ((c.filter fun e => !c.isExpired now e).size - c.bounds.maxEntries) := by
  refine ⟨?_, ?_, ?_, evicted_enforceBound, ?_, ?_⟩
  · intro bounds ops
    exact run_within (c := Cache.empty bounds) (Nat.zero_le _)
  · intro bound
    exact ⟨Entry.wellFounded_pass bound, fun before hover => Entry.exists_pass hover⟩
  · intro c left hleft
    obtain ⟨hsub, -, holdest⟩ := Entry.Passes.shrinks hleft.1 c.distinct
    refine ⟨hsub, ?_, ?_⟩
    · rw [hleft.length_eq c.distinct, size]
      omega
    · intro gone hgone hmissing kept hkept
      have hle := holdest gone hgone hmissing kept hkept
      exact ⟨hle, fun now hexpired => isExpired_mono hexpired hle (Nat.le_refl now)⟩
  · exact evicted_insert
  · intro c now
    exact ⟨evicted_enforceBound (c.filter fun e => !c.isExpired now e), size_sweep c now⟩

/-! ### Three entries of one age -/

/-- Room for two, with two entries that were touched at one time before two others. -/
def overfull : Cache String Nat where
  bounds := .ofLimits 2 ⟨10⟩
  entries := [⟨"a", 1, 5⟩, ⟨"b", 2, 7⟩, ⟨"c", 3, 7⟩, ⟨"d", 4, 9⟩]
  distinct := by decide

/-- Either of the two entries of one age may stay, and it is not older than the ones that go. -/
theorem left_of_overfull :
    Entry.Evicted 2 overfull.entries [⟨"b", 2, 7⟩, ⟨"d", 4, 9⟩] ∧
      (∀ gone ∈ overfull.entries, gone ∉ [⟨"b", 2, 7⟩, ⟨"d", 4, 9⟩] → gone.touched ≤ 7) ∧
      overfull.enforceBound.entries = [⟨"c", 3, 7⟩, ⟨"d", 4, 9⟩] := by
  have hleft : Entry.Evicted 2 overfull.entries [⟨"b", 2, 7⟩, ⟨"d", 4, 9⟩] := by
    have hfirst : Entry.Pass 2 overfull.entries [⟨"b", 2, 7⟩, ⟨"c", 3, 7⟩, ⟨"d", 4, 9⟩] :=
      .evict ⟨"a", 1, 5⟩ (by decide) (by decide) (by decide)
    have hsecond : Entry.Pass 2 [⟨"b", 2, 7⟩, ⟨"c", 3, 7⟩, ⟨"d", 4, 9⟩] [⟨"b", 2, 7⟩, ⟨"d", 4, 9⟩] :=
      .evict ⟨"c", 3, 7⟩ (by decide) (by decide) (by decide)
    exact ⟨Relation.ReflTransGen.head hfirst (Relation.ReflTransGen.single hsecond), Nat.le_refl 2⟩
  obtain ⟨-, -, hgone, -⟩ := @bound_kept_and_oldest_evicted String Nat _
  obtain ⟨-, -, holdest⟩ := hgone overfull _ hleft
  refine ⟨hleft, ?_, rfl⟩
  intro gone hmem hmissing
  exact (holdest gone hmem hmissing ⟨"b", 2, 7⟩ List.mem_cons_self).1

end Cache

end AccessControl
