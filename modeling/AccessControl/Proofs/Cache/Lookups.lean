import AccessControl.Proofs.Cache.Recency

/-!
What operations change of what is found under keys.

A cache is what it holds under each key (`find?_congr`). A removal and a touch change nothing under
other keys (`sameBut_erase`, `sameBut_touch`). An insertion changes nothing under other keys as long
as there is room, and there is always room in the place of an entry under the same key
(`sameBut_insert`); where there is none, the new entry takes the place of one that was touched least
recently (`evicted_of_full`). `Admitted` is the two together, and `admitted_insert` says that an
insertion is always one of them.
-/

namespace AccessControl.Cache

variable {κ ν : Type} [DecidableEq κ] {c d : Cache κ ν} {key : κ} {value : ν} {e : Entry κ ν}
  {now : Nat}

/-- Two caches have the same bounds, and hold the same under all keys but some. -/
structure SameBut (keys : List κ) (c d : Cache κ ν) : Prop where
  bounds : c.bounds = d.bounds
  found : ∀ key, key ∉ keys → c.find? key = d.find? key

/-- The second cache is the first one with an entry under its key. Where the key is new and all
places were taken, one other entry is gone, none of those that were there touched earlier; no other
entry ever is. -/
structure Admitted (e : Entry κ ν) (c d : Cache κ ν) : Prop where
  held : d.find? e.key = some e
  crowded : c.find? e.key = none → c.size = c.bounds.maxEntries →
    ∃ victim ∈ c.entries, victim.key ≠ e.key ∧
      (∀ other ∈ c.entries, victim.touched ≤ other.touched) ∧
      d.find? victim.key = none ∧ SameBut [e.key, victim.key] d c
  spacious : c.find? e.key ≠ none ∨ c.size ≠ c.bounds.maxEntries → SameBut [e.key] d c

/-- Caches with the same entries under a key hold the same there. -/
theorem find?_congr (h : ∀ e : Entry κ ν, e.key = key → (e ∈ c.entries ↔ e ∈ d.entries)) :
    c.find? key = d.find? key := by
  cases hd : d.find? key with
  | none =>
      refine find?_eq_none_iff.mpr fun e he hkey => ?_
      exact find?_eq_none_iff.mp hd e ((h e hkey).mp he) hkey
  | some e =>
      obtain ⟨he, hkey⟩ := find?_eq_some_iff.mp hd
      exact find?_eq_some_iff.mpr ⟨(h e hkey).mpr he, hkey⟩

/-! ### Removals and touches -/

theorem find?_erase_self (c : Cache κ ν) (key : κ) : (c.erase key).find? key = none :=
  find?_eq_none_iff.mpr fun _ he => (mem_erase.mp he).2

theorem sameBut_erase (c : Cache κ ν) (key : κ) : SameBut [key] (c.erase key) c := by
  refine ⟨rfl, fun other hother => find?_congr fun e hkey => ?_⟩
  rw [mem_erase, hkey]
  exact and_iff_left fun hsame => hother (List.mem_singleton.mpr hsame)

theorem sameBut_touch (c : Cache κ ν) (now : Nat) (key : κ) :
    SameBut [key] (c.touch now key) c := by
  refine ⟨rfl, fun other hother => find?_congr fun e hkey => ?_⟩
  have hne : e.key ≠ key := fun hsame => hother (List.mem_singleton.mpr (hkey.symm.trans hsame))
  constructor
  · intro he
    rcases mem_touch_cases he with ⟨hold, -⟩ | ⟨old, -, hold, rfl⟩
    · exact hold
    · exact absurd hold hne
  · intro he
    exact List.mem_map.mpr ⟨e, he, if_neg hne⟩

/-- Removing what is there makes room. -/
theorem size_erase_lt (h : c.find? key = some e) : (c.erase key).size < c.size := by
  obtain ⟨he, hkey⟩ := find?_eq_some_iff.mp h
  exact List.length_filter_lt_length_iff_exists.mpr ⟨e, he, by simpa using hkey⟩

/-! ### Insertions -/

/-- Whether what was under the key has been removed before does not matter. -/
@[simp] theorem insert_erase (c : Cache κ ν) (now : Nat) (key : κ) (value : ν) :
    (c.erase key).insert now key value = c.insert now key value := by
  have htwice : (c.erase key).erase key = c.erase key := erase_eq_self (find?_erase_self c key)
  refine ext_entries rfl ?_
  simp only [insert, htwice]
  rfl

/-- Where there is room, nothing is evicted. -/
theorem entries_insert_of_room (h : (c.erase key).size < c.bounds.maxEntries) (now : Nat)
    (value : ν) :
    (c.insert now key value).entries =
      ⟨key, value, Clock.reading now⟩ :: (c.erase key).entries := by
  have hfits : (c.erase key).entries.length + 1 - c.bounds.maxEntries = 0 :=
    Nat.sub_eq_zero_of_le h
  simp only [insert, enforceBound, restrict, size, List.length_cons, hfits]
  rfl

omit [DecidableEq κ] in
/-- Of entries and a later one, an entry that was touched least recently is one of the former. -/
theorem oldest?_cons_of_later {entries : List (Entry κ ν)} (hne : entries ≠ [])
    (hlater : ∀ other ∈ entries, other.touched < e.touched) :
    ∃ victim ∈ entries, (∀ other ∈ entries, victim.touched ≤ other.touched) ∧
      Entry.oldest? (e :: entries) = some victim := by
  obtain ⟨first, hfirst⟩ := List.exists_mem_of_ne_nil entries hne
  obtain ⟨victim, hvictim⟩ : ∃ victim, Entry.oldest? (e :: entries) = some victim := by
    refine Option.ne_none_iff_exists'.mp fun hnone => ?_
    cases Entry.oldest?_eq_none hnone
  obtain ⟨hmem, hleast⟩ := Entry.oldest?_spec hvictim
  have hlt : victim.touched < e.touched :=
    Nat.lt_of_le_of_lt (hleast first (List.mem_cons_of_mem e hfirst)) (hlater first hfirst)
  refine ⟨victim, ?_, fun other hother => hleast other (List.mem_cons_of_mem e hother), hvictim⟩
  rcases List.mem_cons.mp hmem with rfl | hold
  · exact absurd hlt (Nat.lt_irrefl _)
  · exact hold

/-- Where all places are taken, the new entry takes the place of one that was touched least
recently. -/
theorem entries_insert_of_full (hroom : 0 < c.bounds.maxEntries)
    (hfull : c.size = c.bounds.maxEntries) (hnew : c.find? key = none)
    (hbefore : ∀ e ∈ c.entries, e.touched < Clock.reading now) (value : ν) :
    ∃ victim ∈ c.entries, (∀ other ∈ c.entries, victim.touched ≤ other.touched) ∧
      (c.insert now key value).entries =
        ⟨key, value, Clock.reading now⟩ :: Entry.without victim.key c.entries := by
  have hkeys : ((⟨key, value, Clock.reading now⟩ :: c.entries).map Entry.key).Nodup := by
    refine List.nodup_cons.mpr ⟨fun hmem => ?_, c.distinct⟩
    obtain ⟨e, he, hkey⟩ := List.mem_map.mp hmem
    exact find?_eq_none_iff.mp hnew e he hkey
  have hinsert : (c.insert now key value).entries =
      Entry.dropOldest (⟨key, value, Clock.reading now⟩ :: c.entries) := by
    have hone : c.entries.length + 1 - c.bounds.maxEntries = 1 := by
      rw [← hfull, size]
      omega
    simp only [insert, enforceBound, restrict, size, erase_eq_self hnew, List.length_cons, hone]
    rfl
  rw [← hfull] at hroom
  obtain ⟨victim, hvictim, hleast, holdest⟩ :=
    oldest?_cons_of_later (e := ⟨key, value, Clock.reading now⟩) (List.ne_nil_of_length_pos hroom)
      hbefore
  refine ⟨victim, hvictim, hleast, ?_⟩
  rw [hinsert, Entry.dropOldest, holdest]
  simp only [Entry.eraseP_eq_without hkeys]
  exact Entry.without_cons_of_ne (Ne.symm (find?_eq_none_iff.mp hnew victim hvictim)) _

/-- An insertion into a cache with room for it adds its entry and changes nothing else. -/
theorem sameBut_insert (h : (c.erase key).size < c.bounds.maxEntries) :
    (c.insert now key value).find? key = some ⟨key, value, Clock.reading now⟩ ∧
      SameBut [key] (c.insert now key value) c := by
  have hentries := entries_insert_of_room h now value
  refine ⟨find?_eq_some_iff.mpr ⟨hentries ▸ List.mem_cons_self, rfl⟩, rfl, fun other hother => ?_⟩
  refine find?_congr fun e hkey => ?_
  have hne : e.key ≠ key := fun hsame => hother (List.mem_singleton.mpr (hkey.symm.trans hsame))
  rw [hentries, List.mem_cons, mem_erase]
  constructor
  · rintro (rfl | ⟨hold, -⟩)
    · exact absurd rfl hne
    · exact hold
  · intro hold
    exact Or.inr ⟨hold, hne⟩

/-- An insertion into a full cache adds its entry, and one of the entries that were touched least
recently is gone. -/
theorem evicted_of_full (hroom : 0 < c.bounds.maxEntries) (hfull : c.size = c.bounds.maxEntries)
    (hnew : c.find? key = none) (hbefore : ∀ e ∈ c.entries, e.touched < Clock.reading now) :
    (c.insert now key value).find? key = some ⟨key, value, Clock.reading now⟩ ∧
      ∃ victim ∈ c.entries, victim.key ≠ key ∧
        (∀ other ∈ c.entries, victim.touched ≤ other.touched) ∧
        (c.insert now key value).find? victim.key = none ∧
        SameBut [key, victim.key] (c.insert now key value) c := by
  obtain ⟨victim, hvictim, hleast, hentries⟩ :=
    entries_insert_of_full hroom hfull hnew hbefore value
  have hne : victim.key ≠ key := find?_eq_none_iff.mp hnew victim hvictim
  refine ⟨find?_eq_some_iff.mpr ⟨hentries ▸ List.mem_cons_self, rfl⟩, victim, hvictim, hne, hleast,
    ?_, rfl, fun other hother => find?_congr fun e hkey => ?_⟩
  · refine find?_eq_none_iff.mpr fun e he => ?_
    rw [hentries] at he
    rcases List.mem_cons.mp he with rfl | he
    · exact hne.symm
    · exact (Entry.mem_without.mp he).2
  · rw [List.mem_cons, List.mem_singleton, not_or, ← hkey] at hother
    rw [hentries, List.mem_cons, Entry.mem_without]
    constructor
    · rintro (rfl | ⟨hold, -⟩)
      · exact absurd rfl hother.1
      · exact hold
    · intro hold
      exact Or.inr ⟨hold, hother.2⟩

/-- An insertion admits its entry, if there is a place at all and no entry is from the future. -/
theorem admitted_insert (hroom : 0 < c.bounds.maxEntries) (hwithin : c.size ≤ c.bounds.maxEntries)
    (hbefore : ∀ e ∈ c.entries, e.touched < Clock.reading now) (key : κ) (value : ν) :
    Admitted ⟨key, value, Clock.reading now⟩ c (c.insert now key value) := by
  have hspacious (h : c.find? key ≠ none ∨ c.size ≠ c.bounds.maxEntries) :
      (c.erase key).size < c.bounds.maxEntries := by
    cases hfound : c.find? key with
    | none =>
        rw [erase_eq_self hfound]
        exact Nat.lt_of_le_of_ne hwithin (h.resolve_left (absurd hfound))
    | some e => exact Nat.lt_of_lt_of_le (size_erase_lt hfound) hwithin
  refine ⟨?_, fun hnew hfull => (evicted_of_full hroom hfull hnew hbefore).2,
    fun h => (sameBut_insert (hspacious h)).2⟩
  by_cases h : c.find? key ≠ none ∨ c.size ≠ c.bounds.maxEntries
  · exact (sameBut_insert (hspacious h)).1
  · rw [not_or, not_not, not_not] at h
    exact (evicted_of_full hroom h.2 h.1 hbefore).1

end AccessControl.Cache
