import AccessControl.Proofs.Verifier.Run

/-!
The memory of a verifier never shows in its verdicts.

Every entry of the cache is justified: it lies under the key of a pair of secret and stored token
that the hash has confirmed, and its value is that token (`Justified`, `run_justified`). Entries are
touched, removed, expired and evicted in any order without disturbing this, since no operation but
a confirmed check makes one.

Main statement: `verdict_iff_hash_confirms`. For a hasher that derives a token again as a function
of secret and text, a check is true exactly when the hash gives the stored token back, whatever the
memory went through before. Keys of different stored tokens may collide: what is found there is
another token, and the hash decides.
-/

namespace AccessControl.Verifier

variable {σ : Type}

/-! ### Justified entries -/

/-- Every entry is under the key of a secret and the token that is its value, and `P` holds of the
two. -/
def Justified (P : Bytes → String → Prop) (v : Verifier σ) : Prop :=
  ∀ e ∈ v.cache.entries, ∃ secret,
    e.key = v.key secret (Utf8.encode e.value) ∧ P secret e.value

variable {P : Bytes → String → Prop} {v w : Verifier σ}

/-- A verifier whose entries have keys and values of justified ones is justified. -/
theorem Justified.of_mem (h : v.Justified P) (hkey : w.keySecret = v.keySecret)
    (hmem : ∀ e ∈ w.cache.entries,
      ∃ old ∈ v.cache.entries, old.key = e.key ∧ old.value = e.value) :
    w.Justified P := by
  intro e he
  obtain ⟨old, hold, holdKey, holdValue⟩ := hmem e he
  obtain ⟨secret, hsecret, hP⟩ := h old hold
  refine ⟨secret, ?_, holdValue ▸ hP⟩
  rw [← holdKey, ← holdValue, hsecret, key, key, hkey]

/-- A verifier with fewer entries than a justified one is justified. -/
theorem Justified.of_subset (h : v.Justified P) (hkey : w.keySecret = v.keySecret)
    (hsub : ∀ e ∈ w.cache.entries, e ∈ v.cache.entries) : w.Justified P :=
  h.of_mem hkey fun e he => ⟨e, hsub e he, rfl, rfl⟩

/-- A check by the hash keeps entries justified if what the hash confirms is. -/
theorem check_justified {now : Nat} {secret stored : Bytes} (h : v.Justified P)
    (hnew : ∀ text, Utf8.decode? stored = some text →
      (v.hasher.crypt secret (some text) v.hashing).1 = .ok text → P secret text) :
    (v.check now secret stored).2.Justified P := by
  rcases check_cases v now secret stored with
    ⟨-, hcheck⟩ | ⟨text, htext, ⟨hok, hcheck⟩ | ⟨-, hcheck⟩⟩
  · rw [hcheck]
    exact h
  · rw [hcheck]
    intro e he
    rcases Cache.mem_insert he with rfl | hold
    · refine ⟨secret, ?_, hnew text htext hok⟩
      rw [Utf8.decode?_eq_some_iff.mp htext]
      rfl
    · exact h e hold
  · rw [hcheck]
    exact h.of_subset rfl fun _ he => he

/-- One operation keeps entries justified if what the hash confirms in it is. -/
theorem step_justified {e : Event} (h : v.Justified P)
    (hnew : ∀ secret stored text, e.op = .verify secret stored → Utf8.decode? stored = some text →
      (v.hasher.crypt secret (some text) v.hashing).1 = .ok text → P secret text) :
    (v.step e).2.Justified P := by
  obtain ⟨asked, answered, op⟩ := e
  cases op with
  | verify secret stored =>
      by_cases hrecalls : v.Recalls asked secret stored
      · rw [step_verify, verify_of_recalls hrecalls]
        exact h.of_mem rfl fun e he => Cache.mem_touch he
      · rw [step_verify, verify_of_not_recalls hrecalls]
        refine check_justified (h.of_subset rfl fun e he => (Cache.mem_erase.mp he).1) ?_
        exact fun text htext hok => hnew secret stored text rfl htext hok
  | create secret =>
      rw [step_create, createCredential_snd]
      exact h.of_subset rfl fun _ he => he
  | cacheSize => exact h.of_subset rfl fun e he => Cache.mem_of_mem_sweep he
  | clearCache => exact h.of_subset rfl fun e he => absurd he List.not_mem_nil
  | shutdown => exact h.of_subset rfl fun e he => absurd he List.not_mem_nil
  | sweep => exact h.of_subset rfl fun e he => Cache.mem_of_mem_sweep he

/-- A run keeps entries justified if whatever the hash may confirm in it is. -/
theorem run_justified {events : List Event} (h : v.Justified P)
    (hnew : ∀ e ∈ events, ∀ secret stored text state, e.op = .verify secret stored →
      Utf8.decode? stored = some text →
      (v.hasher.crypt secret (some text) state).1 = .ok text → P secret text) :
    (v.run events).2.Justified P := by
  induction events generalizing v with
  | nil => exact h
  | cons e rest ih =>
      have hstep : (v.step e).2.Justified P := by
        refine step_justified h fun secret stored text hop htext hok => ?_
        exact hnew e List.mem_cons_self secret stored text _ hop htext hok
      rw [run_cons]
      refine ih hstep ?_
      intro other hother secret stored text state hop htext hok
      rw [(step_frame v e).2.1] at hok
      exact hnew other (List.mem_cons_of_mem e hother) secret stored text state hop htext hok

/-- A new verifier remembers nothing that would need a reason. -/
theorem setUp_justified {config : Config} {hasher : Hasher σ} {hashing : σ} {keySecret : Bytes}
    {runtime : Bool} (h : setUp config hasher hashing keySecret runtime = .ok v) :
    v.Justified P := by
  obtain ⟨-, -, -, -, -, hcache⟩ := setUp_eq_ok h
  intro e he
  rw [hcache] at he
  exact absurd he List.not_mem_nil

/-! ### Verdicts -/

/-- What the hash confirms is accepted in every state of the memory. -/
theorem verify_of_confirmed {asked answered : Nat} {secret stored : Bytes} {text : String}
    (htext : Utf8.decode? stored = some text)
    (hok : (v.hasher.crypt secret (some text) v.hashing).1 = .ok text) :
    (v.verify asked answered secret stored).1 = true := by
  by_cases hrecalls : v.Recalls asked secret stored
  · rw [verify_of_recalls hrecalls]
  · rw [verify_of_not_recalls hrecalls]
    rcases check_cases { v with cache := v.cache.erase (v.key secret stored) } answered secret
      stored with ⟨hnone, -⟩ | ⟨other, hother, ⟨-, hcheck⟩ | ⟨hne, -⟩⟩
    · rw [htext] at hnone
      cases hnone
    · rw [hcheck]
    · rw [htext] at hother
      cases hother
      exact absurd hok hne

/-- What is accepted was remembered or is confirmed by the hash now. -/
theorem recalls_or_confirmed_of_verify {asked answered : Nat} {secret stored : Bytes}
    (h : (v.verify asked answered secret stored).1 = true) :
    v.Recalls asked secret stored ∨ ∃ text, Utf8.decode? stored = some text ∧
      (v.hasher.crypt secret (some text) v.hashing).1 = .ok text := by
  by_cases hrecalls : v.Recalls asked secret stored
  · exact Or.inl hrecalls
  · rw [verify_of_not_recalls hrecalls] at h
    rcases check_cases { v with cache := v.cache.erase (v.key secret stored) } answered secret
      stored with ⟨-, hcheck⟩ | ⟨text, htext, ⟨hok, -⟩ | ⟨-, hcheck⟩⟩
    · simp [hcheck] at h
    · exact Or.inr ⟨text, htext, hok⟩
    · simp [hcheck] at h

/-- Stored bytes that are no text fit no secret. -/
theorem verify_of_no_text {secret stored : Bytes} (h : Utf8.decode? stored = none)
    (asked answered : Nat) : (v.verify asked answered secret stored).1 = false := by
  by_contra htrue
  rw [Bool.not_eq_false] at htrue
  rcases recalls_or_confirmed_of_verify htrue with ⟨entry, -, -, htext⟩ | ⟨text, htext, -⟩
  · rw [h] at htext
    cases htext
  · rw [h] at htext
    cases htext

/-- A justified memory that recalls a success of a pair holds it for that very pair, as long as the
secrets that may have been presented with the token are separated by their keys. -/
theorem Justified.of_recalls {now : Nat} {secret stored : Bytes} {text : String}
    (h : v.Justified P) (hrecalls : v.Recalls now secret stored)
    (htext : Utf8.decode? stored = some text)
    (hseparated : ∀ other, P other text → v.key other stored = v.key secret stored →
      other = secret) :
    P secret text := by
  obtain ⟨e, hfound, -, hvalue⟩ := hrecalls
  obtain ⟨hmem, hkey⟩ := Cache.find?_eq_some_iff.mp hfound
  obtain ⟨other, hother, hP⟩ := h e hmem
  rw [htext, Option.some.injEq] at hvalue
  rw [← hvalue] at hother hP
  rw [Utf8.decode?_eq_some_iff.mp htext, hkey] at hother
  exact hseparated other hP hother.symm ▸ hP

/-- Where secrets are separated, a verifier whose memory holds nothing but what the hash confirms
answers as the hash does. -/
theorem verify_eq_true_iff {derive : Bytes → String → Except HashError String}
    {Q : Bytes → Bytes → Prop} {asked answered : Nat} {secret stored : Bytes}
    (hderive : ∀ secret text state,
      (v.hasher.crypt secret (some text) state).1 = derive secret text)
    (h : v.Justified fun secret text =>
      Q secret (Utf8.encode text) ∧ derive secret text = .ok text)
    (hseparated : ∀ other, Q other stored → v.key other stored = v.key secret stored →
      other = secret) :
    (v.verify asked answered secret stored).1 = true ↔
      ∃ text fresh, Utf8.decode? stored = some text ∧ derive secret text = .ok fresh ∧
        Utf8.encode fresh = stored := by
  constructor
  · intro htrue
    have hconfirmed : ∃ text, Utf8.decode? stored = some text ∧ derive secret text = .ok text := by
      rcases recalls_or_confirmed_of_verify htrue with hrecalls | ⟨text, htext, hok⟩
      · obtain ⟨e, -, -, htext⟩ := id hrecalls
        refine ⟨e.value, htext, (h.of_recalls hrecalls htext ?_).2⟩
        rintro other ⟨hQ, -⟩ hsame
        rw [Utf8.decode?_eq_some_iff.mp htext] at hQ
        exact hseparated other hQ hsame
      · exact ⟨text, htext, (hderive secret text _).symm.trans hok⟩
    obtain ⟨text, htext, hok⟩ := hconfirmed
    exact ⟨text, text, htext, hok, Utf8.decode?_eq_some_iff.mp htext⟩
  · rintro ⟨text, fresh, htext, hok, hfresh⟩
    rw [← Utf8.decode?_eq_some_iff, htext, Option.some.injEq] at hfresh
    subst hfresh
    exact verify_of_confirmed htext ((hderive secret text _).trans hok)

/-- **The memory never shows.** In every run from a new verifier, at whatever times and with
whatever is cached, expired, evicted, swept or cleared in between, a check is true exactly when the
stored token is a text and the hash of the secret under it is that very token. Only secrets
presented with one stored token need to be separated by their keys. -/
theorem verdict_iff_hash_confirms {config : Config} {hasher : Hasher σ} {hashing : σ}
    {keySecret : Bytes} {runtime : Bool} {v : Verifier σ}
    {derive : Bytes → String → Except HashError String} {events : List Event}
    (hset : setUp config hasher hashing keySecret runtime = .ok v)
    (hderive : ∀ secret text state,
      (hasher.crypt secret (some text) state).1 = derive secret text)
    (hseparated : SecretsSeparated keySecret events) {i : Nat} {e : Event}
    {secret stored : Bytes} (hat : events[i]? = some e) (hop : e.op = .verify secret stored) :
    ∃ fits, (v.run events).1[i]? = some (.verdict fits) ∧
      (fits = true ↔ ∃ text fresh, Utf8.decode? stored = some text ∧
        derive secret text = .ok fresh ∧ Utf8.encode fresh = stored) := by
  obtain ⟨-, -, rfl, -, rfl, -⟩ := setUp_eq_ok hset
  obtain ⟨asked, answered, op⟩ := e
  cases hop
  obtain ⟨-, hhasher, hkey, -⟩ := run_frame v (events.take i)
  have hjustified : (v.run (events.take i)).2.Justified fun secret text =>
      Presented events secret (Utf8.encode text) ∧ derive secret text = .ok text := by
    refine run_justified (setUp_justified hset) ?_
    intro e he secret stored text state hop htext hok
    rw [← Utf8.decode?_eq_some_iff.mp htext] at hop
    exact ⟨⟨e, List.mem_of_mem_take he, hop⟩, (hderive secret text state).symm.trans hok⟩
  refine ⟨((v.run (events.take i)).2.verify asked answered secret stored).1, ?_, ?_⟩
  · rw [run_getElem?, hat]
    rfl
  · refine verify_eq_true_iff (by rwa [hhasher]) hjustified fun other hpresented hsame => ?_
    rw [key, key, hkey] at hsame
    exact hseparated other secret stored hpresented ⟨_, List.mem_of_getElem? hat, rfl⟩ hsame

/-! ### Two secrets with one token -/

/-- A hasher that gives every token back for one secret, and another token for all others. -/
def acceptOnly (accepted : Bytes) : Hasher Unit where
  crypt secret existing state :=
    (.ok (if secret = accepted then existing.getD "fresh" else "other"), state)

/-- The right secret, a wrong one, and both again while the success is remembered. -/
def twoSecrets : List Event :=
  [⟨1, 1, .verify [1] (Utf8.encode "token")⟩, ⟨2, 2, .verify [2] (Utf8.encode "token")⟩,
    ⟨3, 3, .verify [1] (Utf8.encode "token")⟩, ⟨4, 4, .verify [2] (Utf8.encode "token")⟩]

theorem twoSecrets_separated : SecretsSeparated [7] twoSecrets :=
  (pairsSeparated_of_nodup (by decide +kernel)).secretsSeparated

/-- The remembered success of the right secret, and the failure of the wrong one beside it. -/
theorem verdicts_of_twoSecrets :
    ∃ v, setUp .default (acceptOnly [1]) () [7] false = .ok v ∧
      SecretsSeparated [7] twoSecrets ∧
      (v.run twoSecrets).1[2]? = some (.verdict true) ∧
      (v.run twoSecrets).1[3]? = some (.verdict false) := by
  have hset : setUp .default (acceptOnly [1]) () [7] false =
      .ok ⟨.default, acceptOnly [1], (), [7], .empty Config.default.bounds, none⟩ := rfl
  have hderive : ∀ secret text state, ((acceptOnly [1]).crypt secret (some text) state).1 =
      .ok (if secret = [1] then text else "other") := fun _ _ _ => rfl
  refine ⟨_, hset, twoSecrets_separated, ?_, ?_⟩
  · obtain ⟨fits, hfits, hiff⟩ :=
      verdict_iff_hash_confirms hset hderive twoSecrets_separated (i := 2) rfl rfl
    rw [hfits, hiff.mpr ⟨"token", "token", Utf8.decode?_encode _, rfl, rfl⟩]
  · obtain ⟨fits, hfits, hiff⟩ :=
      verdict_iff_hash_confirms hset hderive twoSecrets_separated (i := 3) rfl rfl
    cases fits with
    | false => exact hfits
    | true =>
        obtain ⟨text, fresh, -, hok, hfresh⟩ := hiff.mp rfl
        cases hok
        have hne : Utf8.encode "other" ≠ Utf8.encode "token" := by decide
        exact absurd hfresh hne

end AccessControl.Verifier
