import AccessControl.Proofs.Cache.Entries

/-!
The entries of a cache as a list with the one touched last in front.

The cache keeps its entries in no order and looks for the least recently touched one whenever it
has too many. Where no two entries were touched at one time, this is a list ordered by recency that
is cut at its end: `Listed` relates the two, and each operation of the cache is an operation of the
list (`Listed.touch`, `Listed.insert`, `Listed.erase`, `Listed.sweep`).

* `evict_perm`: so many evictions leave all but so many entries at the end of the list.
* `sweep_add_size`: the count of a sweep is the number of entries that are gone.
* `isExpired_eq`: before the counter of time stops, expiry is exact.
-/

namespace AccessControl

namespace Entry

variable {κ ν : Type}

/-- Each entry was touched later than all behind it. -/
def ByRecency (r : List (Entry κ ν)) : Prop :=
  r.Pairwise fun newer older => older.touched < newer.touched

/-- An entry that has been idle for less than the idle time. -/
def fresh (idle now : Nat) (e : Entry κ ν) : Bool := now - e.touched < idle

/-- The entries without the one under a key. -/
def without [DecidableEq κ] (key : κ) (r : List (Entry κ ν)) : List (Entry κ ν) :=
  r.filter fun e => e.key ≠ key

/-- The entries with a new one in front, in place of the one under its key, cut to a bound. -/
def put [DecidableEq κ] (bound : Nat) (e : Entry κ ν) (r : List (Entry κ ν)) :
    List (Entry κ ν) :=
  (e :: without e.key r).take bound

/-! ### Eviction -/

theorem oldest?_eq_none {entries : List (Entry κ ν)} (h : oldest? entries = none) :
    entries = [] := by
  cases entries with
  | nil => rfl
  | cons e rest =>
      simp only [oldest?] at h
      split at h
      · cases h
      · split at h <;> cases h

/-- The entry that is evicted is there, and none was touched earlier. -/
theorem oldest?_spec {entries : List (Entry κ ν)} {e : Entry κ ν} (h : oldest? entries = some e) :
    e ∈ entries ∧ ∀ other ∈ entries, e.touched ≤ other.touched := by
  induction entries generalizing e with
  | nil => cases h
  | cons first rest ih =>
      simp only [oldest?] at h
      cases hrest : oldest? rest with
      | none =>
          simp only [hrest, Option.some.injEq] at h
          subst h
          simp [oldest?_eq_none hrest]
      | some other =>
          obtain ⟨hmem, hleast⟩ := ih hrest
          simp only [hrest] at h
          split at h
          · next hle =>
              cases h
              refine ⟨List.mem_cons_self, fun x hx => ?_⟩
              rcases List.mem_cons.mp hx with rfl | hx
              · exact Nat.le_refl _
              · exact Nat.le_trans hle (hleast x hx)
          · next hle =>
              cases h
              refine ⟨List.mem_cons_of_mem _ hmem, fun x hx => ?_⟩
              rcases List.mem_cons.mp hx with rfl | hx
              · exact Nat.le_of_lt (Nat.lt_of_not_le hle)
              · exact hleast x hx

variable [DecidableEq κ]

/-- Where there is an entry, one goes. -/
theorem length_dropOldest_add_one {entries : List (Entry κ ν)} {e : Entry κ ν}
    (h : oldest? entries = some e) : (dropOldest entries).length + 1 = entries.length := by
  have hmem : e ∈ entries := (oldest?_spec h).1
  simp only [dropOldest, h]
  rw [List.length_eraseP_of_mem hmem (by simp)]
  exact Nat.sub_add_cancel (List.length_pos_of_mem hmem)

/-- What went and what is left are together what was there. -/
theorem evictions_add_length (count : Nat) (entries : List (Entry κ ν)) :
    evictions count entries + (evict count entries).length = entries.length := by
  induction count generalizing entries with
  | zero => exact Nat.zero_add _
  | succ count ih =>
      cases holdest : oldest? entries with
      | none =>
          obtain rfl := oldest?_eq_none holdest
          have hrest : evictions count ([] : List (Entry κ ν)) + (evict count []).length = 0 :=
            ih []
          show 0 + (evict count []).length = 0
          omega
      | some e =>
          have hone := length_dropOldest_add_one holdest
          have hrest := ih (dropOldest entries)
          simp only [evictions, evict, holdest]
          omega

/-! ### The entries under other keys -/

theorem mem_without {key : κ} {r : List (Entry κ ν)} {e : Entry κ ν} :
    e ∈ without key r ↔ e ∈ r ∧ e.key ≠ key := by
  simp [without]

theorem without_eq_self {key : κ} {r : List (Entry κ ν)} (h : ∀ e ∈ r, e.key ≠ key) :
    without key r = r :=
  List.filter_eq_self.mpr fun e he => by simpa using h e he

theorem without_cons_self (e : Entry κ ν) (r : List (Entry κ ν)) :
    without e.key (e :: r) = without e.key r := by
  simp [without]

theorem without_cons_of_ne {key : κ} {e : Entry κ ν} (h : e.key ≠ key) (r : List (Entry κ ν)) :
    without key (e :: r) = e :: without key r := by
  simp [without, h]

theorem without_append (key : κ) (r s : List (Entry κ ν)) :
    without key (r ++ s) = without key r ++ without key s :=
  List.filter_append _ _

/-- A later entry may go to the front, in place of the one under its key. -/
theorem ByRecency.cons_without {e : Entry κ ν} {r : List (Entry κ ν)} (h : ByRecency r)
    (hlater : ∀ other ∈ r, other.touched < e.touched) : ByRecency (e :: without e.key r) :=
  List.pairwise_cons.mpr ⟨fun other hother => hlater other (mem_without.mp hother).1,
    h.sublist List.filter_sublist⟩

/-! ### Evicting from the end -/

/-- Where keys are distinct, the entry under a key is the only one to go. -/
theorem eraseP_eq_without {entries : List (Entry κ ν)} (h : (entries.map Entry.key).Nodup)
    (key : κ) : (entries.eraseP fun e => e.key = key) = without key entries := by
  induction entries with
  | nil => rfl
  | cons e rest ih =>
      rw [List.map_cons, List.nodup_cons] at h
      by_cases hkey : e.key = key
      · subst hkey
        rw [List.eraseP_cons_of_pos (by simp), without_cons_self, without_eq_self]
        intro other hother hsame
        exact h.1 (hsame ▸ List.mem_map_of_mem hother)
      · rw [List.eraseP_cons_of_neg (by simpa using hkey), without_cons_of_ne hkey, ih h.2]

/-- Evicting one entry removes the last of the list by recency. -/
theorem dropOldest_perm {entries r : List (Entry κ ν)} (h : (entries.map Entry.key).Nodup)
    (hperm : entries.Perm r) (hsorted : ByRecency r) : (dropOldest entries).Perm r.dropLast := by
  unfold dropOldest
  split
  · next hnone =>
      have hnil := oldest?_eq_none hnone
      subst hnil
      simp [List.nil_perm.mp hperm]
  · next e hsome =>
      obtain ⟨hmem, hleast⟩ := oldest?_spec hsome
      have hne : r ≠ [] := List.ne_nil_of_mem (hperm.subset hmem)
      obtain ⟨front, last, rfl⟩ : ∃ front last, r = front ++ [last] :=
        ⟨r.dropLast, r.getLast hne, (List.dropLast_append_getLast hne).symm⟩
      have hlast : e = last := by
        rcases List.mem_append.mp (hperm.subset hmem) with hfront | hlast
        · have hlt := (List.pairwise_append.mp hsorted).2.2 e hfront last (by simp)
          have hle := hleast last (hperm.symm.subset (by simp))
          omega
        · exact List.mem_singleton.mp hlast
      subst hlast
      have hkeys := (hperm.map Entry.key).nodup_iff.mp h
      rw [List.map_append, List.map_singleton, List.nodup_append] at hkeys
      have hfront : without e.key front = front :=
        without_eq_self fun other hother =>
          hkeys.2.2 other.key (List.mem_map_of_mem hother) e.key (by simp)
      have hrest : (without e.key entries).Perm (without e.key (front ++ [e])) := hperm.filter _
      rw [without_append, hfront, without_cons_self] at hrest
      rw [eraseP_eq_without h, List.dropLast_concat]
      simpa [without] using hrest

/-- So many evictions leave all but so many entries at the end of the list by recency. -/
theorem evict_perm {entries r : List (Entry κ ν)} (count : Nat)
    (h : (entries.map Entry.key).Nodup) (hperm : entries.Perm r) (hsorted : ByRecency r) :
    (evict count entries).Perm (r.take (r.length - count)) := by
  induction count generalizing entries r with
  | zero => simpa [evict] using hperm
  | succ count ih =>
      have hdrop := dropOldest_perm h hperm hsorted
      have hkeys : ((dropOldest entries).map Entry.key).Nodup :=
        h.sublist ((dropOldest_sublist entries).map _)
      have hrest := ih hkeys hdrop (hsorted.sublist (List.dropLast_sublist r))
      rw [evict]
      refine hrest.trans (List.Perm.of_eq ?_)
      rw [List.dropLast_eq_take, List.take_take, List.length_take]
      congr 1
      omega

end Entry

/-! ### Caches as lists -/

namespace Cache

variable {κ ν : Type}

/-- A list of the entries of a cache, the one touched last in front. -/
structure Listed (c : Cache κ ν) (r : List (Entry κ ν)) : Prop where
  perm : c.entries.Perm r
  sorted : Entry.ByRecency r

variable {c : Cache κ ν} {r : List (Entry κ ν)} {now : Nat}

/-- Before the counter of time stops, an entry has expired exactly when it is not fresh. -/
theorem isExpired_eq (h : now < Clock.limit) (e : Entry κ ν) :
    c.isExpired now e = !e.fresh c.bounds.idleTimeout.nanos now := by
  have hnow : Clock.reading now = now := Nat.min_eq_left (Nat.le_of_lt h)
  have hiff : c.bounds.idleReading ≤ now - e.touched ↔
      ¬ now - e.touched < c.bounds.idleTimeout.nanos := by
    unfold Bounds.idleReading Clock.reading
    omega
  rw [isExpired, Entry.fresh, hnow, ← decide_not]
  exact decide_eq_decide.mpr hiff

/-- An entry has expired when it has been idle for the idle time. -/
theorem isExpired_iff (h : now < Clock.limit) (e : Entry κ ν) :
    c.isExpired now e = true ↔ c.bounds.idleTimeout.nanos ≤ now - e.touched := by
  rw [isExpired_eq h, Entry.fresh, Bool.not_eq_true', decide_eq_false_iff_not, Nat.not_lt]

/-- The entries of a cache are those that have expired and those that live. -/
theorem size_eq_expired_add_live (c : Cache κ ν) (now : Nat) :
    c.size = (c.filter (c.isExpired now)).size + (c.filter fun e => !c.isExpired now e).size :=
  List.length_eq_length_filter_add _

theorem Listed.size_eq (h : c.Listed r) : c.size = r.length := h.perm.length_eq

theorem Listed.nodup_keys (h : c.Listed r) : (r.map Entry.key).Nodup :=
  (h.perm.map Entry.key).nodup_iff.mp c.distinct

theorem Listed.empty (bounds : Bounds) : (Cache.empty bounds : Cache κ ν).Listed [] :=
  ⟨List.Perm.nil, List.Pairwise.nil⟩

variable [DecidableEq κ]

theorem Listed.find?_eq_some_iff (h : c.Listed r) {key : κ} {e : Entry κ ν} :
    c.find? key = some e ↔ e ∈ r ∧ e.key = key := by
  rw [Cache.find?_eq_some_iff, h.perm.mem_iff]

/-- Removing a key removes it from the list. -/
theorem Listed.erase (h : c.Listed r) (key : κ) : (c.erase key).Listed (Entry.without key r) :=
  ⟨h.perm.filter _, h.sorted.sublist List.filter_sublist⟩

/-- Enforcing the bound cuts the list to it. -/
theorem Listed.enforceBound (h : c.Listed r) :
    c.enforceBound.Listed (r.take c.bounds.maxEntries) := by
  refine ⟨?_, h.sorted.sublist (List.take_sublist _ r)⟩
  have hperm := Entry.evict_perm (c.size - c.bounds.maxEntries) c.distinct h.perm h.sorted
  refine hperm.trans (List.Perm.of_eq ?_)
  rw [h.size_eq, List.take_eq_take_iff]
  omega

/-- A touched entry moves to the front. -/
theorem Listed.touch (h : c.Listed r) {e : Entry κ ν} (he : e ∈ r)
    (hlater : ∀ other ∈ r, other.touched < now) (hnow : now < Clock.limit) :
    (c.touch now e.key).Listed ({ e with touched := now } :: Entry.without e.key r) := by
  refine ⟨?_, Entry.ByRecency.cons_without (e := { e with touched := now }) h.sorted hlater⟩
  have hreading : max e.touched (Clock.reading now) = now := by
    have := hlater e he
    unfold Clock.reading
    omega
  obtain ⟨front, back, rfl⟩ := List.append_of_mem he
  have hkeys := h.nodup_keys
  simp only [List.map_append, List.map_cons, List.nodup_append, List.nodup_cons,
    List.mem_cons] at hkeys
  obtain ⟨-, ⟨hback, -⟩, hfront⟩ := hkeys
  have hneFront : ∀ other ∈ front, other.key ≠ e.key := fun other hother =>
    hfront other.key (List.mem_map_of_mem hother) e.key (Or.inl rfl)
  have hneBack : ∀ other ∈ back, other.key ≠ e.key := fun other hother hsame =>
    hback (hsame ▸ List.mem_map_of_mem hother)
  rw [Entry.without_append, Entry.without_cons_self, Entry.without_eq_self hneFront,
    Entry.without_eq_self hneBack]
  refine (h.perm.map _).trans (List.Perm.trans (List.Perm.of_eq ?_) List.perm_middle)
  rw [List.map_append, List.map_cons, if_pos rfl, hreading]
  congr 1
  · exact (List.map_congr_left fun other hother => if_neg (hneFront other hother)).trans
      (List.map_id front)
  · congr 1
    exact (List.map_congr_left fun other hother => if_neg (hneBack other hother)).trans
      (List.map_id back)

/-- A new entry goes to the front, and the list is cut to the bound. -/
theorem Listed.insert (h : c.Listed r) (hlater : ∀ e ∈ r, e.touched < now)
    (hnow : now < Clock.limit) (key : κ) (value : ν) :
    (c.insert now key value).Listed (Entry.put c.bounds.maxEntries ⟨key, value, now⟩ r) := by
  have hreading : Clock.reading now = now := Nat.min_eq_left (Nat.le_of_lt hnow)
  refine Listed.enforceBound
    ⟨?_, Entry.ByRecency.cons_without (e := ⟨key, value, now⟩) h.sorted hlater⟩
  rw [hreading]
  exact (h.erase key).perm.cons _

/-- A sweep leaves the fresh entries, as far as the bound has room. -/
theorem Listed.sweep (h : c.Listed r) (hnow : now < Clock.limit) :
    (c.sweep now).2.Listed
      ((r.filter (Entry.fresh c.bounds.idleTimeout.nanos now)).take c.bounds.maxEntries) := by
  refine Listed.enforceBound (c := c.filter fun e => !c.isExpired now e) ⟨?_, ?_⟩
  · simp only [isExpired_eq hnow, Bool.not_not]
    exact h.perm.filter _
  · exact h.sorted.sublist List.filter_sublist

/-- Looking up in the cache is looking up in the list. -/
theorem Listed.find?_eq (h : c.Listed r) (key : κ) :
    c.find? key = r.find? fun e => e.key = key := by
  cases hfound : c.find? key with
  | none =>
      have hnone := find?_eq_none_iff.mp hfound
      exact (List.find?_eq_none.mpr fun e he => by
        simpa using hnone e (h.perm.mem_iff.mpr he)).symm
  | some e =>
      obtain ⟨he, rfl⟩ := h.find?_eq_some_iff.mp hfound
      cases hother : r.find? fun other => other.key = e.key with
      | none => exact absurd (List.find?_eq_none.mp hother e he) (by simp)
      | some other =>
          have hmem := List.mem_of_find?_eq_some hother
          have hkey : other.key = e.key := by simpa using List.find?_some hother
          exact congrArg some (List.inj_on_of_nodup_map h.nodup_keys he hmem hkey.symm)

/-! ### The count of a sweep -/

/-- What is evicted and what is left are together what was there. -/
theorem evictions_add_size (c : Cache κ ν) : c.evictions + c.enforceBound.size = c.size :=
  Entry.evictions_add_length _ _

/-- A sweep tells how many entries are gone. -/
theorem sweep_add_size (c : Cache κ ν) (now : Nat) :
    (c.sweep now).1 + (c.sweep now).2.size = c.size := by
  have hsplit := size_eq_expired_add_live c now
  have hevicted := evictions_add_size (c.filter fun e => !c.isExpired now e)
  simp only [sweep]
  omega

/-! ### Between two operations -/

/-- The entries of a cache as a list by recency that is within the bound, all of them touched before
a time. -/
structure MirroredBy (c : Cache κ ν) (r : List (Entry κ ν)) (now : Nat) : Prop where
  listed : c.Listed r
  within : r.length ≤ c.bounds.maxEntries
  before : ∀ e ∈ r, e.touched < now

omit [DecidableEq κ] in
theorem MirroredBy.empty (bounds : Bounds) (now : Nat) :
    (Cache.empty bounds : Cache κ ν).MirroredBy [] now :=
  ⟨Listed.empty bounds, Nat.zero_le _, fun _ he => absurd he List.not_mem_nil⟩

omit [DecidableEq κ] in
theorem MirroredBy.mono {later : Nat} (h : c.MirroredBy r now) (hle : now ≤ later) :
    c.MirroredBy r later :=
  ⟨h.listed, h.within, fun e he => Nat.lt_of_lt_of_le (h.before e he) hle⟩

/-- A removal removes from the list. -/
theorem MirroredBy.erase (h : c.MirroredBy r now) (key : κ) :
    (c.erase key).MirroredBy (Entry.without key r) now :=
  ⟨h.listed.erase key, Nat.le_trans (List.length_filter_le _ _) h.within,
    fun e he => h.before e (Entry.mem_without.mp he).1⟩

/-- A touched entry moves to the front, and nothing is cut. -/
theorem MirroredBy.touch (h : c.MirroredBy r now) {e : Entry κ ν} (he : e ∈ r)
    (hnow : now < Clock.limit) :
    (c.touch now e.key).MirroredBy ({ e with touched := now } :: Entry.without e.key r)
      (now + 1) := by
  have hlength : (Entry.without e.key r).length < r.length :=
    List.length_filter_lt_length_iff_exists.mpr ⟨e, he, by simp⟩
  refine ⟨h.listed.touch he h.before hnow, Nat.le_trans hlength h.within, ?_⟩
  intro other hother
  rcases List.mem_cons.mp hother with rfl | hother
  · exact Nat.lt_succ_self now
  · exact Nat.lt_succ_of_lt (h.before other (Entry.mem_without.mp hother).1)

/-- A new entry goes to the front, and the list is cut to the bound. -/
theorem MirroredBy.insert (h : c.MirroredBy r now) (hnow : now < Clock.limit) (key : κ)
    (value : ν) :
    (c.insert now key value).MirroredBy (Entry.put c.bounds.maxEntries ⟨key, value, now⟩ r)
      (now + 1) := by
  refine ⟨h.listed.insert h.before hnow key value, List.length_take_le _ _, ?_⟩
  intro other hother
  rcases List.mem_cons.mp (List.mem_of_mem_take hother) with rfl | hother
  · exact Nat.lt_succ_self now
  · exact Nat.lt_succ_of_lt (h.before other (Entry.mem_without.mp hother).1)

/-- A sweep leaves the fresh entries. -/
theorem MirroredBy.sweep {last : Nat} (h : c.MirroredBy r last) (hnow : now < Clock.limit) :
    (c.sweep now).2.MirroredBy (r.filter (Entry.fresh c.bounds.idleTimeout.nanos now)) last := by
  have hwithin : (r.filter (Entry.fresh c.bounds.idleTimeout.nanos now)).length ≤
      c.bounds.maxEntries := Nat.le_trans (List.length_filter_le _ r) h.within
  have hlisted := h.listed.sweep hnow
  rw [List.take_of_length_le hwithin] at hlisted
  exact ⟨hlisted, hwithin, fun e he => h.before e (List.mem_of_mem_filter he)⟩

end Cache

end AccessControl
