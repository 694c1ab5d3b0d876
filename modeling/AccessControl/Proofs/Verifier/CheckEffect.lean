import AccessControl.Proofs.Cache.Lookups
import AccessControl.Proofs.Verifier.Chronicle
import AccessControl.Proofs.Verifier.Transparency

/-!
The whole effect of one check, whatever the memory holds.

The memory need not be one that a run reaches: any entries within the bound will do, under any keys
and with any values, if none is from the future. A recalled success is refreshed
(`refreshed_of_recalls`). In every other case the hash decides (`check_outcome`): what was under the
key is forgotten, or the stored token is admitted there.

Main statement: `verify_effect`, which says of each case what becomes of every entry.
-/

namespace AccessControl.Verifier

variable {σ : Type} {v : Verifier σ} {secret stored : Bytes} {asked now : Nat}

/-- The stored token is a text, and the hasher gives its bytes back for the secret. -/
def Confirms (v : Verifier σ) (secret stored : Bytes) : Prop :=
  ∃ text fresh, Utf8.decode? stored = some text ∧
    (v.hasher.crypt secret (some text) v.hashing).1 = .ok fresh ∧ Utf8.encode fresh = stored

/-- The hash gives the bytes of a text back exactly when it gives the text back. -/
theorem confirms_iff {text : String} (htext : Utf8.decode? stored = some text) :
    v.Confirms secret stored ↔ (v.hasher.crypt secret (some text) v.hashing).1 = .ok text := by
  constructor
  · rintro ⟨other, fresh, hother, hok, hfresh⟩
    rw [← Utf8.decode?_eq_some_iff, htext, Option.some.injEq] at hfresh
    rw [htext, Option.some.injEq] at hother
    rwa [← hother, ← hfresh] at hok
  · intro hok
    exact ⟨text, text, htext, hok, Utf8.decode?_eq_some_iff.mp htext⟩

/-! ### A recalled success -/

/-- A recalled success is refreshed, and nothing else changes in the memory. -/
theorem refreshed_of_recalls (h : v.Recalls asked secret stored)
    (hbefore : ∀ e ∈ v.cache.entries, e.touched < Clock.reading asked) :
    ∃ e, v.cache.find? (v.key secret stored) = some e ∧ Utf8.encode e.value = stored ∧
      (v.cache.touch asked (v.key secret stored)).find? (v.key secret stored) =
        some { e with touched := Clock.reading asked } := by
  obtain ⟨e, hfound, -, htext⟩ := h
  have hlast : max e.touched (Clock.reading asked) = Clock.reading asked :=
    Nat.max_eq_right (Nat.le_of_lt (hbefore e (Cache.find?_eq_some_iff.mp hfound).1))
  have htouched : (v.cache.touch asked (v.key secret stored)).find? (v.key secret stored) =
      some { e with touched := max e.touched (Clock.reading asked) } := Cache.find?_touch hfound
  rw [hlast] at htouched
  exact ⟨e, hfound, Utf8.decode?_eq_some_iff.mp htext, htouched⟩

/-! ### A check by the hash -/

/-- A check by the hash is a failure that leaves the memory alone, or a success that is remembered,
as the hash has it. -/
theorem check_outcome (v : Verifier σ) (now : Nat) (secret stored : Bytes) :
    ∃ hashing,
      (¬ v.Confirms secret stored ∧ v.check now secret stored = (false, { v with hashing })) ∨
      ∃ text, Utf8.encode text = stored ∧ v.Confirms secret stored ∧
        v.check now secret stored =
          (true, { v with
            hashing, cache := v.cache.insert now (v.key secret stored) text }) := by
  rcases check_cases v now secret stored with
    ⟨hnone, hcheck⟩ | ⟨text, htext, ⟨hok, hcheck⟩ | ⟨hne, hcheck⟩⟩
  · refine ⟨_, Or.inl ⟨?_, hcheck⟩⟩
    rintro ⟨text, -, htext, -⟩
    rw [hnone] at htext
    cases htext
  · exact ⟨_, Or.inr ⟨text, Utf8.decode?_eq_some_iff.mp htext, (confirms_iff htext).mpr hok,
      hcheck⟩⟩
  · exact ⟨_, Or.inl ⟨mt (confirms_iff htext).mp hne, hcheck⟩⟩

/-- Where nothing is recalled, the key is cleared after a failure, and holds the stored token after
a success. -/
theorem verify_outcome (h : ¬ v.Recalls asked secret stored) (answered : Nat) :
    ∃ hashing,
      (¬ v.Confirms secret stored ∧ v.verify asked answered secret stored =
        (false, { v with hashing, cache := v.cache.erase (v.key secret stored) })) ∨
      ∃ text, Utf8.encode text = stored ∧ v.Confirms secret stored ∧
        v.verify asked answered secret stored =
          (true, { v with
            hashing, cache := v.cache.insert answered (v.key secret stored) text }) := by
  obtain ⟨hashing, ⟨hother, hcheck⟩ | ⟨text, htext, hconfirms, hcheck⟩⟩ :=
    check_outcome { v with cache := v.cache.erase (v.key secret stored) } answered secret stored
  · exact ⟨hashing, Or.inl ⟨hother, (verify_of_not_recalls h).trans hcheck⟩⟩
  · refine ⟨hashing, Or.inr ⟨text, htext, hconfirms, ?_⟩⟩
    rw [verify_of_not_recalls h, hcheck,
      ← Cache.insert_erase v.cache answered (v.key secret stored) text]
    rfl

/-! ### Any check -/

/-- **The whole effect of a check.** Whatever is in the memory, within its bound and from the past:
a recalled success is the answer without a call of the hasher, and only the time of its entry
changes, to that of the check. In every other case the verdict is that of the hash, which is called
once if the stored token is a text. After a failure nothing is under the key and all else is as it
was. After a success the key holds the stored token with the time of the answer; one other entry is
gone if the key is new and all places were taken, an entry that was touched least recently, and
otherwise none; all others are as they were. -/
theorem verify_effect {hasher : Hasher σ} {v : Verifier (List HashCall × σ)}
    {asked answered : Nat} (hhasher : v.hasher = hasher.logging)
    (hroom : 0 < v.cache.bounds.maxEntries) (hwithin : v.cache.size ≤ v.cache.bounds.maxEntries)
    (hbefore : ∀ e ∈ v.cache.entries, e.touched < Clock.reading asked)
    (hforward : asked ≤ answered) (secret stored : Bytes) :
    ∃ verdict after, v.verify asked answered secret stored = (verdict, after) ∧
      after = { v with hashing := after.hashing, cache := after.cache } ∧
      (v.Recalls asked secret stored →
        verdict = true ∧ after.hashing = v.hashing ∧
        (∃ e, v.cache.find? (v.key secret stored) = some e ∧ Utf8.encode e.value = stored ∧
          after.cache.find? (v.key secret stored) =
            some { e with touched := Clock.reading asked }) ∧
        Cache.SameBut [v.key secret stored] after.cache v.cache) ∧
      (¬ v.Recalls asked secret stored →
        (verdict = true ↔ v.Confirms secret stored) ∧
        (v.deed ⟨asked, answered, .verify secret stored⟩).calls =
          (match Utf8.decode? stored with
          | none => []
          | some text => [⟨secret, some text, (v.hasher.crypt secret (some text) v.hashing).1⟩]) ∧
        (verdict = false →
          after.cache.find? (v.key secret stored) = none ∧
          Cache.SameBut [v.key secret stored] after.cache v.cache) ∧
        (verdict = true → ∃ text, Utf8.encode text = stored ∧
          Cache.Admitted ⟨v.key secret stored, text, Clock.reading answered⟩ v.cache
            after.cache)) := by
  by_cases hrecalls : v.Recalls asked secret stored
  · exact ⟨_, _, verify_of_recalls hrecalls, rfl,
      fun _ => ⟨rfl, rfl, refreshed_of_recalls hrecalls hbefore,
        Cache.sameBut_touch v.cache asked _⟩,
      absurd hrecalls⟩
  · have hcalls := calls_of_not_recalls answered hhasher hrecalls
    obtain ⟨hashing, ⟨hother, hverify⟩ | ⟨text, htext, hconfirms, hverify⟩⟩ :=
      verify_outcome hrecalls answered
    · refine ⟨_, _, hverify, rfl, fun h => absurd h hrecalls, fun _ =>
        ⟨iff_of_false Bool.false_ne_true hother, hcalls, fun _ => ?_,
          fun h => absurd h Bool.false_ne_true⟩⟩
      exact ⟨Cache.find?_erase_self _ _, Cache.sameBut_erase _ _⟩
    · refine ⟨_, _, hverify, rfl, fun h => absurd h hrecalls, fun _ =>
        ⟨iff_of_true rfl hconfirms, hcalls, fun h => absurd h.symm Bool.false_ne_true,
          fun _ => ⟨text, htext, ?_⟩⟩⟩
      have hpast : ∀ e ∈ v.cache.entries, e.touched < Clock.reading answered := by
        intro e he
        have := hbefore e he
        unfold Clock.reading at this ⊢
        omega
      exact Cache.admitted_insert hroom hwithin hpast _ text

/-- A verifier with two places, both taken by entries under keys that belong to no pair. -/
def crowdedDesk : Verifier (List HashCall × Unit) where
  config := .default
  hasher := (acceptOnly [1]).logging
  hashing := ([], ())
  keySecret := [7]
  cache := ⟨.ofLimits 2 (.ofSeconds 60), [⟨⟨[0]⟩, "older", 3⟩, ⟨⟨[1]⟩, "newer", 5⟩], by decide⟩
  sweeper := none

/-- A success takes the place of the older entry and leaves the newer one alone. -/
theorem effect_of_crowdedDesk :
    ∃ after, crowdedDesk.verify 9 9 [1] (Utf8.encode "token") = (true, after) ∧
      after.cache.find? (crowdedDesk.key [1] (Utf8.encode "token")) =
        some ⟨crowdedDesk.key [1] (Utf8.encode "token"), "token", 9⟩ ∧
      after.cache.find? ⟨[0]⟩ = none ∧
      after.cache.find? ⟨[1]⟩ = some ⟨⟨[1]⟩, "newer", 5⟩ := by
  have hnew : crowdedDesk.cache.find? (crowdedDesk.key [1] (Utf8.encode "token")) = none := by
    decide +kernel
  have hrecalls : ¬ crowdedDesk.Recalls 9 [1] (Utf8.encode "token") := by
    rintro ⟨e, hfound, -⟩
    rw [hnew] at hfound
    cases hfound
  have hhasher : crowdedDesk.hasher = (acceptOnly [1]).logging := rfl
  have hbefore : ∀ e ∈ crowdedDesk.cache.entries, e.touched < Clock.reading 9 := by decide
  obtain ⟨verdict, after, hverify, -, -, heffect⟩ := verify_effect hhasher (by decide) (by decide)
    hbefore (Nat.le_refl 9) [1] (Utf8.encode "token")
  obtain ⟨hverdict, -, -, hadmitted⟩ := heffect hrecalls
  have htrue : verdict = true :=
    hverdict.mpr ((confirms_iff (Utf8.decode?_encode "token")).mpr rfl)
  obtain ⟨text, htext, hadmitted⟩ := hadmitted htrue
  obtain rfl : "token" = text := Option.some.inj
    ((Utf8.decode?_encode "token").symm.trans (Utf8.decode?_eq_some_iff.mpr htext))
  obtain ⟨victim, hvictim, -, hleast, hgone, hsame⟩ := hadmitted.crowded hnew rfl
  have hother : (⟨[1]⟩ : CacheKey) ≠ crowdedDesk.key [1] (Utf8.encode "token") := by
    decide +kernel
  -- Of the two entries there were, only the older one can be the one that is gone.
  have holder : victim = ⟨⟨[0]⟩, "older", 3⟩ := by
    rcases List.mem_cons.mp hvictim with hvictim | hvictim
    · exact hvictim
    · rw [List.mem_singleton.mp hvictim] at hleast
      exact absurd (hleast ⟨⟨[0]⟩, "older", 3⟩ List.mem_cons_self) (by decide)
  subst holder
  refine ⟨after, htrue ▸ hverify, hadmitted.held, hgone, ?_⟩
  rw [hsame.found ⟨[1]⟩ (by simp [hother])]
  rfl

end AccessControl.Verifier
