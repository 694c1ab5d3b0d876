import AccessControl.Proofs.Verifier.Freshness
import AccessControl.Proofs.Verifier.Memory
import AccessControl.Proofs.Verifier.Transparency

/-!
Where the entries of the cache come from.

Nothing but a check that is true without a recalled success makes an entry, and no operation moves a
value to another key. So every entry goes back to one call of a client (`Origin`): a check of the
pair whose key the entry is under, with the token that is its value, for which the hasher gave that
token back. From this call on an entry with this key and value has always been there; it may have
been touched since.

If the keys tell the presented pairs apart, what is found under the key of a pair is its own stored
token. A check that finds another token under its key has no part in any run, and the one that does
not compare what it finds (`trusting`) does the same.

Main statement: `entries_match_their_pairs`.
-/

namespace AccessControl.Verifier

variable {σ : Type}

/-! ### What a single operation puts there -/

section Step

variable {v : Verifier σ} {entry : Entry CacheKey String} {now : Nat} {secret stored : Bytes}

/-- A check by the hash adds no entry but its own, and only if it comes out true. -/
theorem mem_check (h : entry ∈ (v.check now secret stored).2.cache.entries) :
    entry ∈ v.cache.entries ∨
      (v.check now secret stored).1 = true ∧ Utf8.encode entry.value = stored ∧
        entry.key = v.key secret stored ∧ entry.touched = Clock.reading now := by
  rcases check_cases v now secret stored with
    ⟨-, hcheck⟩ | ⟨text, htext, ⟨-, hcheck⟩ | ⟨-, hcheck⟩⟩
  · rw [hcheck] at h
    exact Or.inl h
  · rw [hcheck] at h ⊢
    rcases Cache.mem_insert h with rfl | hold
    · exact Or.inr ⟨rfl, Utf8.decode?_eq_some_iff.mp htext, rfl, rfl⟩
    · exact Or.inl hold
  · rw [hcheck] at h
    exact Or.inl h

end Step

/-- An operation that puts an entry there: a check of a pair, with the token that is the value and
the key of the two. It came out true, with one call of the hasher, which gave the token back. -/
structure Deed.Puts (d : Deed) (keySecret secret : Bytes) (entry : Entry CacheKey String) :
    Prop where
  success : d.Succeeds secret (Utf8.encode entry.value)
  call : d.calls = [⟨secret, some entry.value, .ok entry.value⟩]
  under : entry.key = CacheKey.derive keySecret secret (Utf8.encode entry.value)

section Log

variable {hasher : Hasher σ} {v : Verifier (List HashCall × σ)} {entry : Entry CacheKey String}

/-- An entry after a check was there before, or has just been put there. -/
theorem verify_entry_cases {asked answered : Nat} {secret stored : Bytes}
    (hhasher : v.hasher = hasher.logging)
    (h : entry ∈ (v.verify asked answered secret stored).2.cache.entries) :
    (∃ old ∈ v.cache.entries, old.key = entry.key ∧ old.value = entry.value) ∨
      (v.deed ⟨asked, answered, .verify secret stored⟩).Puts v.keySecret secret entry ∧
        entry.touched = Clock.reading answered := by
  by_cases hrecalls : v.Recalls asked secret stored
  · left
    rw [verify_of_recalls hrecalls] at h
    exact Cache.mem_touch h
  · have hverify : v.verify asked answered secret stored = check _ answered secret stored :=
      verify_of_not_recalls hrecalls
    rw [hverify] at h
    rcases mem_check h with hold | ⟨htrue, hstored, hkey, htouched⟩
    · left
      exact ⟨entry, (Cache.mem_erase.mp hold).1, rfl, rfl⟩
    · right
      rw [← hverify] at htrue
      obtain ⟨text, htext, hcalls⟩ := calls_of_success answered hhasher hrecalls htrue
      subst hstored
      have hvalue : text = entry.value := by
        have hdecode := Utf8.decode?_eq_some_iff.mpr htext
        rw [Utf8.decode?_encode] at hdecode
        exact (Option.some.inj hdecode).symm
      subst hvalue
      constructor
      · constructor
        · exact ⟨rfl, congrArg Answer.verdict htrue⟩
        · exact hcalls
        · exact hkey
      · exact htouched

/-- An entry after an operation was there before, or the operation has just put it there. -/
theorem step_entry_cases {e : Event} (hhasher : v.hasher = hasher.logging)
    (h : entry ∈ (v.step e).2.cache.entries) :
    (∃ old ∈ v.cache.entries, old.key = entry.key ∧ old.value = entry.value) ∨
      ∃ secret, (v.deed e).Puts v.keySecret secret entry ∧
        entry.touched = Clock.reading e.answered := by
  obtain ⟨asked, answered, op⟩ := e
  cases op with
  | verify secret stored =>
      rcases verify_entry_cases hhasher h with hold | hnew
      · exact Or.inl hold
      · exact Or.inr ⟨secret, hnew⟩
  | create secret =>
      rw [step_create, createCredential_snd] at h
      exact Or.inl ⟨entry, h, rfl, rfl⟩
  | cacheSize => exact Or.inl ⟨entry, Cache.mem_of_mem_sweep h, rfl, rfl⟩
  | clearCache => exact absurd h List.not_mem_nil
  | shutdown => exact absurd h List.not_mem_nil
  | sweep => exact Or.inl ⟨entry, Cache.mem_of_mem_sweep h, rfl, rfl⟩

end Log

/-! ### Where an entry comes from -/

/-- The entry was put there by the deed at a place of the run, and there has been one with its key
and its value ever since. -/
structure Origin (v : Verifier (List HashCall × σ)) (events : List Event)
    (entry : Entry CacheKey String) (secret : Bytes) (i : Nat) (d : Deed) : Prop where
  place : (v.chronicle events)[i]? = some d
  puts : d.Puts v.keySecret secret entry
  first : ⟨entry.key, entry.value, Clock.reading d.event.answered⟩ ∈
    (v.run (events.take (i + 1))).2.cache.entries
  since : ∀ j, i < j → j ≤ events.length →
    ∃ kept ∈ (v.run (events.take j)).2.cache.entries,
      kept.key = entry.key ∧ kept.value = entry.value

section Origin

variable {hasher : Hasher σ} {v : Verifier (List HashCall × σ)} {before events : List Event}
  {e : Event} {old entry : Entry CacheKey String} {secret : Bytes} {i : Nat} {d : Deed}

theorem Origin.lt_length (h : Origin v events entry secret i d) : i < events.length := by
  have hplace := h.place
  rw [chronicle_getElem?] at hplace
  obtain ⟨e, he, -⟩ := Option.map_eq_some_iff.mp hplace
  exact (List.getElem?_eq_some_iff.mp he).1

/-- What reaches beyond a run reaches to the end of it with one more operation. -/
theorem take_concat {j : Nat} (h : before.length < j) :
    (before ++ [e]).take j = before ++ [e] := by
  apply List.take_of_length_le
  rw [List.length_append]
  exact h

/-- An entry that is still there after one more operation comes from where it came from before. -/
theorem Origin.keep (h : Origin v before old secret i d)
    (hkept : entry ∈ (v.run (before ++ [e])).2.cache.entries) (hkey : old.key = entry.key)
    (hvalue : old.value = entry.value) : Origin v (before ++ [e]) entry secret i d := by
  have hlength := h.lt_length
  have htake : ∀ j, j ≤ before.length → (before ++ [e]).take j = before.take j :=
    fun j hj => List.take_append_of_le_length hj
  constructor
  · have hi : i < (v.chronicle before).length := (List.getElem?_eq_some_iff.mp h.place).1
    rw [chronicle_append_singleton, List.getElem?_append_left hi]
    exact h.place
  · have hputs := h.puts
    constructor
    · rw [← hvalue]
      exact hputs.success
    · rw [← hvalue]
      exact hputs.call
    · rw [← hkey, ← hvalue]
      exact hputs.under
  · rw [htake (i + 1) hlength, ← hkey, ← hvalue]
    exact h.first
  · intro j hafter hj
    rcases Nat.lt_or_ge before.length j with hlast | hearlier
    · rw [take_concat hlast]
      exact ⟨entry, hkept, rfl, rfl⟩
    · rw [htake j hearlier, ← hkey, ← hvalue]
      exact h.since j hafter hearlier

/-- An entry that the last operation has put there comes from it. -/
theorem Origin.of_puts (hkept : entry ∈ (v.run (before ++ [e])).2.cache.entries)
    (hputs : ((v.run before).2.deed e).Puts v.keySecret secret entry)
    (htouched : entry.touched = Clock.reading e.answered) :
    Origin v (before ++ [e]) entry secret before.length ((v.run before).2.deed e) := by
  constructor
  · rw [chronicle_getElem?]
    simp
  · exact hputs
  · rw [take_concat (Nat.lt_succ_self _), show ((v.run before).2.deed e).event = e from rfl,
      ← htouched]
    exact hkept
  · intro j hafter _
    rw [take_concat hafter]
    exact ⟨entry, hkept, rfl, rfl⟩

/-- After every run from an empty cache, every entry comes from somewhere. -/
theorem exists_origin (hhasher : v.hasher = hasher.logging) (hempty : v.cache.entries = [])
    (h : entry ∈ (v.run events).2.cache.entries) :
    ∃ secret i d, Origin v events entry secret i d := by
  induction events using List.reverseRecOn generalizing entry with
  | nil =>
      rw [run_nil, hempty] at h
      exact absurd h List.not_mem_nil
  | append_singleton before e ih =>
      obtain ⟨-, hhasher', hkey', -⟩ := run_frame v before
      have hstep := h
      rw [run_append] at hstep
      rcases step_entry_cases (hhasher'.trans hhasher) hstep with
        ⟨old, hold, hkey, hvalue⟩ | ⟨secret, hputs, htouched⟩
      · obtain ⟨secret, i, d, horigin⟩ := ih hold
        exact ⟨secret, i, d, horigin.keep h hkey hvalue⟩
      · rw [hkey'] at hputs
        exact ⟨secret, before.length, _, Origin.of_puts h hputs htouched⟩

/-- The pair that an entry goes back to was presented. -/
theorem Origin.presented (h : Origin v events entry secret i d) :
    Presented events secret (Utf8.encode entry.value) := by
  have hplace := h.place
  rw [chronicle_getElem?] at hplace
  obtain ⟨e, he, rfl⟩ := Option.map_eq_some_iff.mp hplace
  exact ⟨e, List.mem_of_getElem? he, h.puts.success.1⟩

end Origin

/-! ### What is found under a key -/

section Found

variable {v : Verifier σ} {now : Nat} {secret stored : Bytes} {entry : Entry CacheKey String}

/-- Where the keys tell pairs apart, and every entry is under the key of a pair of a kind, what is
found under the key of such a pair is its stored token. -/
theorem Justified.encode_of_found {Q : Bytes × Bytes → Prop}
    (h : v.Justified fun secret text => Q (secret, Utf8.encode text))
    (hseparated : Separated v.keySecret Q) (hpair : Q (secret, stored))
    (hfound : v.cache.find? (v.key secret stored) = some entry) :
    Utf8.encode entry.value = stored := by
  obtain ⟨hmem, hkey⟩ := Cache.find?_eq_some_iff.mp hfound
  obtain ⟨other, hother, hQ⟩ := h entry hmem
  have hsame := hseparated (other, Utf8.encode entry.value) (secret, stored) hQ hpair
    (hother.symm.trans hkey)
  exact congrArg Prod.snd hsame

/-- A check would find another token under its key, alive at that time. -/
def FindsStale (v : Verifier σ) (now : Nat) (secret stored : Bytes) : Prop :=
  ∃ remembered, (v.cache.get now (v.key secret stored)).1 = some remembered ∧
    sameBytes stored (Utf8.encode remembered) = false

/-- What a read gives is the value of the entry found under the key. -/
theorem exists_found_of_get {remembered : String} {key : CacheKey}
    (h : (v.cache.get now key).1 = some remembered) :
    ∃ entry, v.cache.find? key = some entry ∧ entry.value = remembered := by
  cases hfound : v.cache.find? key with
  | none =>
      rw [Cache.get_of_missing hfound] at h
      cases h
  | some entry =>
      cases hexpired : v.cache.isExpired now entry with
      | true =>
          rw [Cache.get_of_expired hfound hexpired] at h
          cases h
      | false =>
          rw [Cache.get_of_live hfound hexpired] at h
          exact ⟨entry, rfl, Option.some.inj h⟩

theorem not_findsStale
    (h : ∀ entry, v.cache.find? (v.key secret stored) = some entry →
      Utf8.encode entry.value = stored) : ¬ v.FindsStale now secret stored := by
  rintro ⟨remembered, hget, hother⟩
  obtain ⟨entry, hfound, rfl⟩ := exists_found_of_get hget
  rw [sameBytes_iff.mpr (h entry hfound).symm] at hother
  cases hother

/-- A check that takes whatever it finds under its key for a success of its pair. -/
def trusting (v : Verifier σ) (asked answered : Nat) (secret stored : Bytes) :
    Bool × Verifier σ :=
  match v.cache.get asked (v.key secret stored) with
  | (none, cache) => check { v with cache } answered secret stored
  | (some _, cache) => (true, { v with cache })

/-- Where no other token is found, nothing is lost by not comparing. -/
theorem verify_eq_trusting {asked : Nat} (h : ¬ v.FindsStale asked secret stored)
    (answered : Nat) :
    v.verify asked answered secret stored = v.trusting asked answered secret stored := by
  unfold verify trusting
  cases hget : v.cache.get asked (v.key secret stored) with
  | mk found cache =>
      cases found with
      | none => simp only [hget]
      | some remembered =>
          have hsame : sameBytes stored (Utf8.encode remembered) = true := by
            by_contra hother
            rw [Bool.not_eq_true] at hother
            exact h ⟨remembered, by rw [hget], hother⟩
          simp only [hget, if_pos hsame]

end Found

/-! ### Runs -/

section Run

variable {config : Config} {hasher : Hasher σ} {hashing : σ} {keySecret : Bytes} {runtime : Bool}
  {v : Verifier (List HashCall × σ)} {before after events : List Event} {secret stored : Bytes}

/-- After every run, every entry is under the key of a pair that was presented. -/
theorem presented_justified
    (hset : setUp config hasher.logging ([], hashing) keySecret runtime = .ok v) :
    (v.run before).2.Justified fun secret text => Presented before secret (Utf8.encode text) := by
  obtain ⟨-, -, hhasher, -, -, hcache⟩ := setUp_eq_ok hset
  intro entry hentry
  have hempty : v.cache.entries = [] := by rw [hcache]; rfl
  obtain ⟨secret, i, d, horigin⟩ := exists_origin hhasher hempty hentry
  refine ⟨secret, ?_, horigin.presented⟩
  rw [key, (run_frame v before).2.2.1]
  exact horigin.puts.under

/-- In a run whose keys tell the presented pairs apart, what is found under the key of a pair is its
stored token. -/
theorem encode_of_found_run
    (hset : setUp config hasher.logging ([], hashing) keySecret runtime = .ok v)
    (hseparated : PairsSeparated keySecret (before ++ after))
    (hpair : Presented (before ++ after) secret stored) {entry : Entry CacheKey String}
    (hfound : (v.run before).2.cache.find? ((v.run before).2.key secret stored) = some entry) :
    Utf8.encode entry.value = stored := by
  obtain ⟨-, -, -, -, rfl, -⟩ := setUp_eq_ok hset
  have hpresented : (v.run before).2.Justified fun secret text =>
      Presented (before ++ after) secret (Utf8.encode text) := by
    intro entry hentry
    obtain ⟨secret, hkey, e, he, hop⟩ := presented_justified hset entry hentry
    exact ⟨secret, hkey, e, List.mem_append_left after he, hop⟩
  apply Justified.encode_of_found (Q := fun pair => Presented (before ++ after) pair.1 pair.2)
  · exact hpresented
  · rw [(run_frame v before).2.2.1]
    exact hseparated
  · exact hpair
  · exact hfound

/-- **The cache holds no pair that does not match.** Whatever the hasher does and whatever is asked
and swept, at whatever times, every entry was put there by a check that came out true, under the key
of its secret and stored token; the value is the stored token, and it is what the hasher gave back
for the pair. So if the keys tell the presented pairs apart, what is found under the key of such a
pair, at any point of the run, is its stored token, a read gives nothing else, and a check never
finds a token to forget: the check that does not look for one does the same. -/
theorem entries_match_their_pairs
    (hset : setUp config hasher.logging ([], hashing) keySecret runtime = .ok v)
    (events : List Event) :
    (∀ entry ∈ (v.run events).2.cache.entries, ∃ secret i d,
      Origin v events entry secret i d) ∧
    (PairsSeparated keySecret events → ∀ before after, events = before ++ after →
      ∀ secret stored, Presented events secret stored →
        (∀ entry, (v.run before).2.cache.find? (CacheKey.derive keySecret secret stored) =
          some entry → Utf8.encode entry.value = stored) ∧
        (∀ now remembered,
          ((v.run before).2.cache.get now (CacheKey.derive keySecret secret stored)).1 =
            some remembered → Utf8.encode remembered = stored) ∧
        ∀ asked answered, ¬ (v.run before).2.FindsStale asked secret stored ∧
          (v.run before).2.verify asked answered secret stored =
            (v.run before).2.trusting asked answered secret stored) := by
  obtain ⟨-, -, hhasher, -, rfl, hcache⟩ := setUp_eq_ok hset
  constructor
  · intro entry hentry
    have hempty : v.cache.entries = [] := by rw [hcache]; rfl
    exact exists_origin hhasher hempty hentry
  · rintro hseparated before after rfl secret stored hpair
    have hkey : (v.run before).2.key secret stored = CacheKey.derive v.keySecret secret stored := by
      rw [key, (run_frame v before).2.2.1]
    have hfound : ∀ entry, (v.run before).2.cache.find? ((v.run before).2.key secret stored) =
        some entry → Utf8.encode entry.value = stored :=
      fun entry hentry => encode_of_found_run hset hseparated hpair hentry
    rw [← hkey]
    refine ⟨hfound, ?_, ?_⟩
    · intro now remembered hget
      obtain ⟨entry, hentry, rfl⟩ := exists_found_of_get hget
      exact hfound entry hentry
    · intro asked answered
      have hstale : ¬ (v.run before).2.FindsStale asked secret stored := not_findsStale hfound
      exact ⟨hstale, verify_eq_trusting hstale answered⟩

end Run

/-! ### One place, and two tokens that fit -/

/-- A new verifier with one place, which a wrong secret never gets. -/
def narrow : Verifier (List HashCall × Unit) :=
  ⟨⟨1, 1, 1, none⟩, (acceptOnly [1]).logging, ([], ()), [7],
    .empty (Config.bounds ⟨1, 1, 1, none⟩), none⟩

/-- A token that fits, a wrong secret for it, another token in its place, stored bytes that are no
text, a sweep at an earlier time, and the other token again. -/
def crowded : List Event :=
  [⟨1, 2, .verify [1] (Utf8.encode "token")⟩, ⟨3, 3, .verify [2] (Utf8.encode "token")⟩,
    ⟨4, 5, .verify [1] (Utf8.encode "second")⟩, ⟨6, 6, .verify [1] [255]⟩, ⟨2, 2, .sweep⟩,
    ⟨7, 7, .verify [1] (Utf8.encode "second")⟩]

theorem crowded_separated : PairsSeparated [7] crowded :=
  pairsSeparated_of_nodup (by decide +kernel)

/-- The second token is what is left, and it goes back to a check that fits; before that, the wrong
secret finds no token to forget. -/
theorem origin_of_crowded :
    setUp ⟨1, 1, 1, none⟩ (acceptOnly [1]).logging ([], ()) [7] false = .ok narrow ∧
      PairsSeparated [7] crowded ∧
      (∃ entry ∈ (narrow.run crowded).2.cache.entries, entry.value = "second" ∧
        ∃ secret i d, Origin narrow crowded entry secret i d) ∧
      (narrow.run (crowded.take 1)).2.verify 3 3 [2] (Utf8.encode "token") =
        (narrow.run (crowded.take 1)).2.trusting 3 3 [2] (Utf8.encode "token") := by
  have hset : setUp ⟨1, 1, 1, none⟩ (acceptOnly [1]).logging ([], ()) [7] false = .ok narrow := rfl
  obtain ⟨horigins, hlookups⟩ := entries_match_their_pairs hset crowded
  refine ⟨hset, crowded_separated, ?_, ?_⟩
  · have hleft : "second" ∈ (narrow.run crowded).2.cache.entries.map Entry.value := by
      decide +kernel
    obtain ⟨entry, hentry, hvalue⟩ := List.mem_map.mp hleft
    exact ⟨entry, hentry, hvalue, horigins entry hentry⟩
  · have hpair : Presented crowded [2] (Utf8.encode "token") :=
      ⟨_, List.mem_cons_of_mem _ List.mem_cons_self, rfl⟩
    obtain ⟨-, -, hchecks⟩ :=
      hlookups crowded_separated (crowded.take 1) (crowded.drop 1) rfl [2] _ hpair
    exact (hchecks 3 3).2

end AccessControl.Verifier
