import AccessControl.Cache.Sweeper
import AccessControl.Proofs.Cache.Agreement

/-!
Sweeps do not show.

A cache that is not swept carries expired entries, which fill places and are evicted in their turn.
Two caches are alike from a time on if their lists by recency have the same fresh entries at every
later time (`Alike`). Since what has expired lies behind everything fresh, it is all that an
eviction can take from one of them and not from the other; so every operation on both keeps them
alike, and a sweep of one of them does.

Main statement: `reads_eq_of_clientOps_eq`. Two runs with the same operations on keys, and with
sweeps and counts anywhere between, read the same.
-/

namespace AccessControl

/-! ### Lists with the same fresh entries -/

namespace Entry

variable {κ ν : Type} {idle since now : Nat} {r s t : List (Entry κ ν)}

/-- From a time on, two lists have the same fresh entries in the same order. -/
def SameFresh (idle since : Nat) (r s : List (Entry κ ν)) : Prop :=
  ∀ now, since ≤ now → r.filter (fresh idle now) = s.filter (fresh idle now)

theorem SameFresh.symm (h : SameFresh idle since r s) : SameFresh idle since s r :=
  fun now hnow => (h now hnow).symm

theorem SameFresh.trans (h : SameFresh idle since r s) (h' : SameFresh idle since s t) :
    SameFresh idle since r t :=
  fun now hnow => (h now hnow).trans (h' now hnow)

theorem SameFresh.mono (h : SameFresh idle since r s) (hle : since ≤ now) :
    SameFresh idle now r s :=
  fun later hlater => h later (Nat.le_trans hle hlater)

/-- What is fresh in one list is fresh in the other. -/
theorem SameFresh.mem_iff (h : SameFresh idle since r s) (hle : since ≤ now) {e : Entry κ ν} :
    e ∈ r ∧ e.fresh idle now = true ↔ e ∈ s ∧ e.fresh idle now = true := by
  rw [← List.mem_filter, ← List.mem_filter, h now hle]

theorem SameFresh.cons (h : SameFresh idle since r s) (e : Entry κ ν) :
    SameFresh idle since (e :: r) (e :: s) := by
  intro now hnow
  rw [List.filter_cons, List.filter_cons, h now hnow]

/-- Cutting lists by recency takes what has expired before anything fresh. -/
theorem SameFresh.take (h : SameFresh idle since r s) (hr : ByRecency r) (hs : ByRecency s)
    (n : Nat) : SameFresh idle since (r.take n) (s.take n) := by
  intro now hnow
  rw [filter_fresh_take hr, filter_fresh_take hs, h now hnow]

/-- Keeping only what is fresh at a time is not noticed from that time on. -/
theorem SameFresh.filter_fresh (idle now : Nat) (r : List (Entry κ ν)) :
    SameFresh idle now (r.filter (fresh idle now)) r :=
  fun _ hlater => filter_fresh_filter_fresh hlater r

variable [DecidableEq κ] {key : κ}

theorem SameFresh.without (h : SameFresh idle since r s) (key : κ) :
    SameFresh idle since (without key r) (without key s) := by
  intro now hnow
  rw [← without_filter, ← without_filter, h now hnow]

/-- Putting a new entry in front of both lists and cutting them keeps their fresh entries the
same. -/
theorem SameFresh.put {e : Entry κ ν} (h : SameFresh idle since r s) (hr : ByRecency r)
    (hs : ByRecency s) (hlaterR : ∀ other ∈ r, other.touched < e.touched)
    (hlaterS : ∀ other ∈ s, other.touched < e.touched) (bound : Nat) :
    SameFresh idle since (put bound e r) (put bound e s) :=
  ((h.without e.key).cons e).take (hr.cons_without hlaterR) (hs.cons_without hlaterS) bound

/-- Removing an entry that has expired is not noticed. -/
theorem SameFresh.without_stale (hstale : ∀ e ∈ r, e.key = key → e.fresh idle now = false) :
    SameFresh idle now (Entry.without key r) r :=
  fun _ hlater => filter_fresh_without_stale hlater hstale

end Entry

/-! ### Caches that are alike -/

namespace Cache

variable {κ ν : Type} {c d : Cache κ ν} {last since now : Nat}

/-- Two caches with the same bounds, all entries of which were touched before a time, and whose
fresh entries are the same from another time on. -/
structure Alike (c d : Cache κ ν) (last since : Nat) : Prop where
  bounds : c.bounds = d.bounds
  lists : ∃ r s, c.MirroredBy r last ∧ d.MirroredBy s last ∧
    Entry.SameFresh c.bounds.idleTimeout.nanos since r s

theorem Alike.empty (bounds : Bounds) (last since : Nat) :
    Alike (Cache.empty bounds : Cache κ ν) (Cache.empty bounds) last since :=
  ⟨rfl, [], [], MirroredBy.empty bounds last, MirroredBy.empty bounds last, fun _ _ => rfl⟩

theorem Alike.symm (h : Alike c d last since) : Alike d c last since := by
  obtain ⟨hbounds, r, s, hr, hs, hsame⟩ := h
  exact ⟨hbounds.symm, s, r, hs, hr, hbounds ▸ hsame.symm⟩

theorem Alike.mono {last' since' : Nat} (h : Alike c d last since) (hlast : last ≤ last')
    (hsince : since ≤ since') : Alike c d last' since' := by
  obtain ⟨hbounds, r, s, hr, hs, hsame⟩ := h
  exact ⟨hbounds, r, s, hr.mono hlast, hs.mono hlast, hsame.mono hsince⟩

variable [DecidableEq κ] {key : κ}

/-- What is found and has not expired is the same in both. -/
theorem Alike.live_iff (h : Alike c d last since) (hsince : since ≤ now) (hnow : now < Clock.limit)
    {e : Entry κ ν} :
    c.find? key = some e ∧ c.isExpired now e = false ↔
      d.find? key = some e ∧ d.isExpired now e = false := by
  obtain ⟨hbounds, r, s, hr, hs, hsame⟩ := h
  rw [hr.listed.find?_eq_some_iff, hs.listed.find?_eq_some_iff, isExpired_eq hnow,
    isExpired_eq hnow, Bool.not_eq_false', Bool.not_eq_false', ← hbounds, and_right_comm,
    hsame.mem_iff hsince, and_right_comm]

theorem Alike.erase (h : Alike c d last since) (key : κ) :
    Alike (c.erase key) (d.erase key) last since := by
  obtain ⟨hbounds, r, s, hr, hs, hsame⟩ := h
  exact ⟨hbounds, _, _, hr.erase key, hs.erase key, hsame.without key⟩

/-- An expired entry may be removed from one of two alike caches. -/
theorem Alike.erase_stale (h : Alike c d last since) (hsince : since ≤ now)
    (hnow : now < Clock.limit)
    (hstale : ∀ e, c.find? key = some e → c.isExpired now e = true) :
    Alike (c.erase key) d last now := by
  obtain ⟨hbounds, r, s, hr, hs, hsame⟩ := h
  refine ⟨hbounds, _, _, hr.erase key, hs, ?_⟩
  refine (Entry.SameFresh.without_stale fun e he hkey => ?_).trans (hsame.mono hsince)
  have hexpired := hstale e (hr.listed.find?_eq_some_iff.mpr ⟨he, hkey⟩)
  rwa [isExpired_eq hnow, Bool.not_eq_true'] at hexpired

/-- An entry found in both may be touched in both. -/
theorem Alike.touch (h : Alike c d last since) (hlast : last ≤ now) (hsince : since ≤ now)
    (hnow : now < Clock.limit) {e : Entry κ ν} (hc : c.find? key = some e)
    (hd : d.find? key = some e) :
    Alike (c.touch now key) (d.touch now key) (now + 1) now := by
  obtain ⟨hbounds, r, s, hr, hs, hsame⟩ := h
  obtain ⟨her, rfl⟩ := hr.listed.find?_eq_some_iff.mp hc
  obtain ⟨hes, -⟩ := hs.listed.find?_eq_some_iff.mp hd
  exact ⟨hbounds, _, _, (hr.mono hlast).touch her hnow, (hs.mono hlast).touch hes hnow,
    ((hsame.mono hsince).without e.key).cons _⟩

/-- A value may be inserted into both. -/
theorem Alike.insert (h : Alike c d last since) (hlast : last ≤ now) (hsince : since ≤ now)
    (hnow : now < Clock.limit) (key : κ) (value : ν) :
    Alike (c.insert now key value) (d.insert now key value) (now + 1) now := by
  obtain ⟨hbounds, r, s, hr, hs, hsame⟩ := h
  have hbeforeR := (hr.mono hlast).before
  have hbeforeS := (hs.mono hlast).before
  have hinsertS := (hs.mono hlast).insert hnow key value
  rw [← hbounds] at hinsertS
  exact ⟨hbounds, _, _, (hr.mono hlast).insert hnow key value, hinsertS,
    (hsame.mono hsince).put hr.listed.sorted hs.listed.sorted hbeforeR hbeforeS _⟩

/-- One of two alike caches may be swept. -/
theorem Alike.sweep (h : Alike c d last since) (hsince : since ≤ now) (hnow : now < Clock.limit) :
    Alike (c.sweep now).2 d last now := by
  obtain ⟨hbounds, r, s, hr, hs, hsame⟩ := h
  exact ⟨hbounds, _, _, hr.sweep hnow, hs,
    (Entry.SameFresh.filter_fresh _ now r).trans (hsame.mono hsince)⟩

/-- After a sweep at one time both have as many entries. -/
theorem Alike.size_sweep (h : Alike c d last since) (hsince : since ≤ now)
    (hnow : now < Clock.limit) : (c.sweep now).2.size = (d.sweep now).2.size := by
  obtain ⟨hbounds, r, s, hr, hs, hsame⟩ := h
  rw [(hr.sweep hnow).listed.size_eq, (hs.sweep hnow).listed.size_eq, ← hbounds,
    hsame now hsince]

/-! ### One operation on two caches -/

/-- Where nothing is found alive in one cache, nothing is in the other. -/
theorem Alike.not_live (h : Alike c d last since) (hsince : since ≤ now) (hnow : now < Clock.limit)
    (hc : ∀ e, c.find? key = some e → c.isExpired now e = true) :
    ∀ e, d.find? key = some e → d.isExpired now e = true := by
  intro e hfound
  by_contra hlive
  rw [Bool.not_eq_true] at hlive
  obtain ⟨hfoundC, hliveC⟩ := (h.live_iff hsince hnow).mpr ⟨hfound, hlive⟩
  rw [hc e hfoundC] at hliveC
  cases hliveC

/-- Two alike caches hold the same entry alive under a key, or both hold none. -/
theorem Alike.live_cases (h : Alike c d last since) (hsince : since ≤ now)
    (hnow : now < Clock.limit) (key : κ) :
    (∃ e, (c.find? key = some e ∧ c.isExpired now e = false) ∧
      d.find? key = some e ∧ d.isExpired now e = false) ∨
    (∀ e, c.find? key = some e → c.isExpired now e = true) ∧
      ∀ e, d.find? key = some e → d.isExpired now e = true := by
  by_cases hlive : ∃ e, c.find? key = some e ∧ c.isExpired now e = false
  · obtain ⟨e, hfound⟩ := hlive
    exact Or.inl ⟨e, hfound, (h.live_iff hsince hnow).mp hfound⟩
  · have hc : ∀ e, c.find? key = some e → c.isExpired now e = true := by
      intro e hfound
      by_contra hexpired
      exact hlive ⟨e, hfound, Bool.eq_false_iff.mpr hexpired⟩
    exact Or.inr ⟨hc, h.not_live hsince hnow hc⟩

/-- A read gives the same in both. -/
theorem Alike.get (h : Alike c d last since) (hlast : last ≤ now) (hsince : since ≤ now)
    (hnow : now < Clock.limit) (key : κ) :
    (c.get now key).1 = (d.get now key).1 ∧
      Alike (c.get now key).2 (d.get now key).2 (now + 1) now := by
  rcases h.live_cases hsince hnow key with ⟨e, ⟨hc, hliveC⟩, hd, hliveD⟩ | ⟨hc, hd⟩
  · rw [get_of_live hc hliveC, get_of_live hd hliveD]
    exact ⟨rfl, h.touch hlast hsince hnow hc hd⟩
  · rw [get_of_not_live hc, get_of_not_live hd]
    exact ⟨rfl, (h.erase key).mono (Nat.le_succ_of_le hlast) hsince⟩

/-- Both know the same keys. -/
theorem Alike.contains (h : Alike c d last since) (hsince : since ≤ now) (hnow : now < Clock.limit)
    (key : κ) : c.contains now key = d.contains now key := by
  rw [Bool.eq_iff_iff, contains_iff, contains_iff]
  exact exists_congr fun e => h.live_iff hsince hnow

/-- A removal on a condition keeps the two alike, although it may find an expired entry in only one
of them. -/
theorem Alike.invalidateIf (h : Alike c d last since) (hsince : since ≤ now)
    (hnow : now < Clock.limit) (key : κ) (condition : ν → Bool) :
    Alike (c.invalidateIf key condition).2 (d.invalidateIf key condition).2 last now := by
  rcases h.live_cases hsince hnow key with ⟨e, ⟨hc, -⟩, hd, -⟩ | ⟨hc, hd⟩
  · simp only [Cache.invalidateIf, hc, hd]
    by_cases hholds : condition e.value = true
    · simp only [if_pos hholds]
      exact (h.erase key).mono (Nat.le_refl last) hsince
    · simp only [if_neg hholds]
      exact h.mono (Nat.le_refl last) hsince
  · -- On either side an expired entry is removed or kept.
    have hleft : Alike (c.invalidateIf key condition).2 d last now := by
      rcases invalidateIf_cases c key condition with hsame | herased
      · rw [hsame]
        exact h.mono (Nat.le_refl last) hsince
      · rw [herased]
        exact h.erase_stale hsince hnow hc
    rcases invalidateIf_cases d key condition with hsame | herased
    · rw [hsame]
      exact hleft
    · rw [herased]
      exact (hleft.symm.erase_stale (Nat.le_refl now) hnow hd).symm

/-! ### Runs -/

/-- Whether an operation is about the cache as a whole and leaves what is fresh: a sweep or a
count. -/
def Op.isUpkeep : Op κ ν → Bool
  | .sweep | .size | .isEmpty => true
  | _ => false

/-- Whether an operation reads under a key. -/
def Op.isRead : Op κ ν → Bool
  | .get _ | .contains _ => true
  | _ => false

/-- The operations of clients: all but upkeep. -/
def clientOps (ops : List (Nat × Op κ ν)) : List (Nat × Op κ ν) :=
  ops.filter fun timed => !timed.2.isUpkeep

/-- The reads of a run, with their times and answers. -/
def reads (c : Cache κ ν) (ops : List (Nat × Op κ ν)) : List ((Nat × Op κ ν) × Answer ν) :=
  (ops.zip (c.run ops).1).filter fun entry => entry.1.2.isRead

/-- The clock never goes back, grows from one client operation to the next, and has not reached its
end. -/
structure ClientClock (ops : List (Nat × Op κ ν)) : Prop where
  ordered : ops.Pairwise fun earlier later => earlier.1 ≤ later.1
  increasing : (clientOps ops).Pairwise fun earlier later => earlier.1 < later.1
  below : ∀ op ∈ ops, op.1 < Clock.limit

instance (ops : List (Nat × Op κ ν)) : Decidable (ClientClock ops) :=
  decidable_of_iff (ops.Pairwise (fun earlier later => earlier.1 ≤ later.1) ∧
      (clientOps ops).Pairwise (fun earlier later => earlier.1 < later.1) ∧
      ∀ op ∈ ops, op.1 < Clock.limit)
    ⟨fun h => ⟨h.1, h.2.1, h.2.2⟩, fun h => ⟨h.ordered, h.increasing, h.below⟩⟩

/-- An operation of a client on two alike caches reads the same and keeps them alike. -/
theorem Alike.step (h : Alike c d last since) (hlast : last ≤ now) (hsince : since ≤ now)
    (hnow : now < Clock.limit) {op : Op κ ν} (hclient : op.isUpkeep = false) :
    (op.isRead = true → (c.step now op).1 = (d.step now op).1) ∧
      Alike (c.step now op).2 (d.step now op).2 (now + 1) now := by
  have hstay : Alike c d (now + 1) now := h.mono (Nat.le_succ_of_le hlast) hsince
  cases op with
  | get key =>
      obtain ⟨hanswer, halike⟩ := h.get hlast hsince hnow key
      exact ⟨fun _ => congrArg Answer.value hanswer, halike⟩
  | contains key => exact ⟨fun _ => congrArg Answer.flag (h.contains hsince hnow key), hstay⟩
  | insert key value => exact ⟨fun _ => rfl, h.insert hlast hsince hnow key value⟩
  | invalidate key =>
      exact ⟨fun hread => (by cases hread),
        hstay.invalidateIf (Nat.le_refl now) hnow key fun _ => true⟩
  | invalidateIf key condition =>
      exact ⟨fun hread => (by cases hread), hstay.invalidateIf (Nat.le_refl now) hnow key condition⟩
  | clear =>
      refine ⟨fun hread => (by cases hread), ?_⟩
      show Alike (Cache.empty c.bounds) (Cache.empty d.bounds) (now + 1) now
      rw [h.bounds]
      exact Alike.empty d.bounds _ _
  | _ => cases hclient

/-- Upkeep of one of two alike caches keeps them alike. -/
theorem Alike.upkeep (h : Alike c d last since) (hsince : since ≤ now) (hnow : now < Clock.limit)
    {op : Op κ ν} (hupkeep : op.isUpkeep = true) : Alike (c.step now op).2 d last now := by
  cases op with
  | sweep => exact h.sweep hsince hnow
  | size => exact h.mono (Nat.le_refl last) hsince
  | isEmpty => exact h.mono (Nat.le_refl last) hsince
  | _ => cases hupkeep

omit [DecidableEq κ] in
theorem isRead_of_isUpkeep {op : Op κ ν} (h : op.isUpkeep = true) : op.isRead = false := by
  cases op with
  | sweep | size | isEmpty => rfl
  | _ => cases h

theorem reads_cons (c : Cache κ ν) (now : Nat) (op : Op κ ν) (rest : List (Nat × Op κ ν)) :
    c.reads ((now, op) :: rest) =
      (if op.isRead then [((now, op), (c.step now op).1)] else []) ++
        (c.step now op).2.reads rest := by
  unfold reads
  rw [run_cons, List.zip_cons_cons, List.filter_cons]
  split
  · rfl
  · rfl

omit [DecidableEq κ] in
theorem ClientClock.tail {timed : Nat × Op κ ν} {rest : List (Nat × Op κ ν)}
    (h : ClientClock (timed :: rest)) : ClientClock rest :=
  ⟨(List.pairwise_cons.mp h.ordered).2,
    h.increasing.sublist ((List.sublist_cons_self timed rest).filter _),
    fun op hop => h.below op (List.mem_cons_of_mem timed hop)⟩

/-- A run with upkeep reads the same as the run of its client operations alone. -/
theorem Alike.reads {ops : List (Nat × Op κ ν)} (h : Alike c d last since)
    (hclock : ClientClock ops) (hlast : ∀ op ∈ clientOps ops, last ≤ op.1)
    (hsince : ∀ op ∈ ops, since ≤ op.1) : c.reads ops = d.reads (clientOps ops) := by
  induction ops generalizing c d last since with
  | nil => rfl
  | cons timed rest ih =>
      obtain ⟨time, op⟩ := timed
      have htime := hclock.below (time, op) List.mem_cons_self
      have hstart := hsince (time, op) List.mem_cons_self
      have hafter : ∀ later ∈ rest, time ≤ later.1 := (List.pairwise_cons.mp hclock.ordered).1
      cases hop : op.isUpkeep with
      | true =>
          have hskip : clientOps ((time, op) :: rest) = clientOps rest :=
            List.filter_cons_of_neg (by simp [hop])
          rw [hskip] at hlast ⊢
          rw [reads_cons, isRead_of_isUpkeep hop]
          exact ih (h.upkeep hstart htime hop) hclock.tail hlast hafter
      | false =>
          have hkeep : clientOps ((time, op) :: rest) = (time, op) :: clientOps rest :=
            List.filter_cons_of_pos (by simp [hop])
          rw [hkeep] at hlast
          obtain ⟨hanswer, halike⟩ :=
            h.step (hlast (time, op) List.mem_cons_self) hstart htime hop
          have hincreasing := hclock.increasing
          rw [hkeep] at hincreasing ⊢
          rw [reads_cons, reads_cons,
            ih halike hclock.tail (List.pairwise_cons.mp hincreasing).1 hafter]
          cases hread : op.isRead with
          | true => rw [hanswer hread]
          | false => rfl

/-- Sweeps and counts, wherever they stand in a run, change nothing of what it reads. -/
theorem reads_eq_of_clientOps_eq (bounds : Bounds) {ops₁ ops₂ : List (Nat × Op κ ν)}
    (hclock₁ : ClientClock ops₁) (hclock₂ : ClientClock ops₂)
    (hsame : clientOps ops₁ = clientOps ops₂) :
    (Cache.empty bounds).reads ops₁ = (Cache.empty bounds).reads ops₂ := by
  have hempty : Alike (Cache.empty bounds : Cache κ ν) (Cache.empty bounds) 0 0 :=
    Alike.empty bounds 0 0
  rw [hempty.reads hclock₁ (fun op _ => Nat.zero_le op.1) fun op _ => Nat.zero_le op.1,
    hempty.reads hclock₂ (fun op _ => Nat.zero_le op.1) fun op _ => Nat.zero_le op.1, hsame]

/-- What a sweeper does at given times is a run of sweeps. -/
theorem sweepAt_eq_run (times : List Nat) (c : Cache κ ν) :
    Sweeper.sweepAt times c = (c.run (times.map fun time => (time, .sweep))).2 := by
  induction times generalizing c with
  | nil => rfl
  | cons time rest ih =>
      rw [List.map_cons, run_cons]
      exact ih (c.sweep time).2

end Cache

end AccessControl
