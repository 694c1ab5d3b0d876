import AccessControl.Proofs.Verifier.Provenance
import AccessControl.Proofs.Verifier.Sweeps

/-!
Failed attempts leave no trace.

A check that fails removes what lies under its key. Where the keys tell the presented pairs apart,
this can only be the token of the same pair, and if it had not expired it would have been recalled.
So what a failure removes has expired, and nobody will notice: neither in what is found, nor in what
is evicted to make room, nor in what is counted after a sweep. A token that is made touches nothing
but the state of the hasher.

Runs that differ by failures and made tokens differ in the calls of the hasher and so in its states.
If what it gives for an existing token is a function of secret and text, checks do not depend on the
state: `frozen` is the verifier with the hasher in one state for ever, which does the same, and in
this form two verifiers in two such runs are kept alike (`Abreast`).

Main statement: `failures_leave_no_trace`.
-/

namespace AccessControl

namespace Hasher

variable {σ : Type}

/-- What the hasher gives for an existing token is a function of secret and text. -/
def Derives (hasher : Hasher σ) (derive : Bytes → String → Except HashError String) : Prop :=
  ∀ secret text state, (hasher.crypt secret (some text) state).1 = derive secret text

/-- The hasher as it is in one state, which it never leaves. -/
def frozen (hasher : Hasher σ) (state : σ) : Hasher Unit where
  crypt secret existing _ := ((hasher.crypt secret existing state).1, ())

variable {hasher : Hasher σ} {derive : Bytes → String → Except HashError String}

theorem Derives.logging (h : hasher.Derives derive) : hasher.logging.Derives derive :=
  fun secret text state => h secret text state.2

end Hasher

namespace Verifier

variable {σ : Type}

/-! ### A hasher that is a function -/

/-- The verifier with its hasher frozen in a state. -/
def frozen (v : Verifier σ) (state : σ) : Verifier Unit :=
  v.rehash (v.hasher.frozen state) fun _ => ()

section Frozen

variable {v : Verifier σ} {derive : Bytes → String → Except HashError String}

theorem verify_frozen (hderive : v.hasher.Derives derive) (state : σ) (asked answered : Nat)
    (secret stored : Bytes) :
    (v.frozen state).verify asked answered secret stored =
      ((v.verify asked answered secret stored).1,
        (v.verify asked answered secret stored).2.frozen state) := by
  have hsame : ∀ secret text other, (v.hasher.frozen state).crypt secret (some text) () =
      ((v.hasher.crypt secret (some text) other).1, ()) := by
    intro secret text other
    show ((v.hasher.crypt secret (some text) state).1, ()) = _
    rw [hderive, hderive]
  have hhasher : (v.verify asked answered secret stored).2.hasher = v.hasher :=
    (step_frame v ⟨asked, answered, .verify secret stored⟩).2.1
  rw [frozen, verify_rehash hsame, frozen, hhasher]

/-- Every operation leaves the same, whatever state the hasher is frozen in. -/
theorem step_frozen (hderive : v.hasher.Derives derive) (state : σ) (e : Event) :
    ((v.frozen state).step e).2 = (v.step e).2.frozen state := by
  obtain ⟨asked, answered, op⟩ := e
  cases op with
  | verify secret stored => rw [step_verify, step_verify, verify_frozen hderive]
  | create secret =>
      rw [step_create, step_create, createCredential_snd, createCredential_snd]
      rfl
  | cacheSize => rfl
  | clearCache => rfl
  | shutdown => rfl
  | sweep => rfl

end Frozen

/-! ### What is left of a chronicle -/

/-- A check that failed, or a token that was made. -/
inductive Deed.Traceless (d : Deed) : Prop
  | failed {secret stored : Bytes} (hop : d.event.op = .verify secret stored)
      (hfalse : d.answer = .verdict false)
  | made {secret : Bytes} (hop : d.event.op = .create secret)

/-- Some of the deeds that leave no trace are struck out of a chronicle. -/
inductive Prunes : List Deed → List Deed → Prop
  | nil : Prunes [] []
  | keep {all kept : List Deed} (d : Deed) (h : Prunes all kept) : Prunes (d :: all) (d :: kept)
  | strike {all kept : List Deed} {d : Deed} (htraceless : d.Traceless) (h : Prunes all kept) :
      Prunes (d :: all) kept

/-- What may be seen of the memory in a deed: the answer and the calls of the hasher, unless it
makes a token. -/
def Deed.seen (d : Deed) : Option (Answer × List HashCall) :=
  match d.event.op with
  | .create _ => none
  | _ => some (d.answer, d.calls)

section Log

variable {v w : Verifier (List HashCall × σ)} {e : Event} {asked : Nat} {secret stored : Bytes}

theorem traceless_of_failed (answered : Nat)
    (h : (v.verify asked answered secret stored).1 = false) :
    (v.deed ⟨asked, answered, .verify secret stored⟩).Traceless :=
  .failed rfl (congrArg Answer.verdict h)

theorem seen_congr (hanswer : (v.step e).1 = (w.step e).1)
    (hcalls : (v.deed e).calls = (w.deed e).calls) : (v.deed e).seen = (w.deed e).seen := by
  have hdeed : v.deed e = w.deed e := by
    rw [deed, deed, Deed.mk.injEq]
    exact ⟨rfl, hanswer, hcalls⟩
  rw [hdeed]

end Log

/-! ### What a failure removes -/

section Failed

variable {v : Verifier σ} {Q : Bytes × Bytes → Prop} {asked answered now : Nat}
  {secret stored : Bytes}

/-- Where the keys tell pairs apart, what lies under the key of a pair and is not recalled has
expired. -/
theorem expired_of_not_recalls
    (hjustified : v.Justified fun secret text => Q (secret, Utf8.encode text))
    (hseparated : Separated v.keySecret Q) (hpair : Q (secret, stored))
    (hrecalls : ¬ v.Recalls now secret stored) :
    ∀ entry, v.cache.find? (v.key secret stored) = some entry →
      v.cache.isExpired now entry = true := by
  intro entry hfound
  by_contra hlive
  rw [Bool.not_eq_true] at hlive
  apply hrecalls
  have hstored := hjustified.encode_of_found hseparated hpair hfound
  exact ⟨entry, hfound, hlive, Utf8.decode?_eq_some_iff.mpr hstored⟩

/-- A check that fails recalls nothing, removes what lies under its key, and does nothing else to
the memory. -/
theorem cache_of_failed (h : (v.verify asked answered secret stored).1 = false) :
    ¬ v.Recalls asked secret stored ∧
      (v.verify asked answered secret stored).2.cache = v.cache.erase (v.key secret stored) := by
  have hrecalls : ¬ v.Recalls asked secret stored := by
    intro hrecalls
    rw [verify_of_recalls hrecalls] at h
    cases h
  refine ⟨hrecalls, ?_⟩
  rw [verify_of_not_recalls hrecalls] at h ⊢
  rcases check_cases { v with cache := v.cache.erase (v.key secret stored) } answered secret
    stored with ⟨-, hcheck⟩ | ⟨text, -, ⟨-, hcheck⟩ | ⟨-, hcheck⟩⟩
  · rw [hcheck]
  · rw [hcheck] at h
    cases h
  · rw [hcheck]

end Failed

/-! ### Two verifiers abreast -/

/-- Two verifiers with one hasher, each in a state of its own, that are alike in everything else.
What the first one holds belongs to pairs of a kind. -/
structure Abreast (hasher : Hasher σ) (Q : Bytes × Bytes → Prop)
    (v w : Verifier (List HashCall × σ)) (last since : Nat) : Prop where
  left : v.hasher = hasher.logging
  right : w.hasher = hasher.logging
  alike : ∀ state, (v.frozen state).Alike (w.frozen state) last since
  justified : v.Justified fun secret text => Q (secret, Utf8.encode text)

section Abreast

variable {hasher : Hasher σ} {derive : Bytes → String → Except HashError String}
  {Q : Bytes × Bytes → Prop} {v w : Verifier (List HashCall × σ)} {last since now : Nat}
  {asked answered : Nat} {secret stored : Bytes} {e : Event}

theorem Abreast.mono {last' since' : Nat} (h : Abreast hasher Q v w last since)
    (hlast : last ≤ last') (hsince : since ≤ since') : Abreast hasher Q v w last' since' :=
  ⟨h.left, h.right, fun state => (h.alike state).mono hlast hsince, h.justified⟩

/-- Both recall the same successes. -/
theorem Abreast.recalls_iff (h : Abreast hasher Q v w last since) (hsince : since ≤ now)
    (hnow : now < Clock.limit) : v.Recalls now secret stored ↔ w.Recalls now secret stored :=
  (h.alike v.hashing).recalls_iff hsince hnow

theorem Abreast.derives (h : Abreast hasher Q v w last since) (hderive : hasher.Derives derive) :
    v.hasher.Derives derive ∧ w.hasher.Derives derive := by
  rw [h.left, h.right]
  exact ⟨hderive.logging, hderive.logging⟩

/-- One operation on both leaves them abreast. -/
theorem Abreast.step (h : Abreast hasher Q v w last since) (hderive : hasher.Derives derive)
    (hQ : ∀ secret stored, e.op = .verify secret stored → Q (secret, stored))
    (hlast : e.op.isUpkeep = false → last ≤ e.asked) (hsince : since ≤ e.asked)
    (hforward : e.asked ≤ e.answered) (hbelow : e.answered < Clock.limit) :
    Abreast hasher Q (v.step e).2 (w.step e).2
      (if e.op.isUpkeep then last else e.answered + 1) e.answered := by
  obtain ⟨hderiveV, hderiveW⟩ := h.derives hderive
  constructor
  · exact (step_frame v e).2.1.trans h.left
  · exact (step_frame w e).2.1.trans h.right
  · intro state
    rw [← step_frozen hderiveV, ← step_frozen hderiveW]
    have halike := h.alike state
    cases hupkeep : e.op.isUpkeep with
    | true =>
        have hasked : e.asked < Clock.limit := Nat.lt_of_le_of_lt hforward hbelow
        have hleft := halike.upkeep hsince hasked hupkeep
        have hboth := hleft.symm.upkeep (Nat.le_refl e.asked) hasked hupkeep
        exact hboth.symm.mono (Nat.le_refl last) hforward
    | false => exact (halike.step (hlast hupkeep) hsince hforward hbelow hupkeep).2
  · apply step_justified h.justified
    intro secret stored text hop htext _
    rw [Utf8.decode?_eq_some_iff.mp htext]
    exact hQ secret stored hop

/-- A check that fails on the first one leaves them abreast. -/
theorem Abreast.failed (h : Abreast hasher Q v w last since)
    (hseparated : Separated v.keySecret Q) (hpair : Q (secret, stored)) (hsince : since ≤ asked)
    (hasked : asked < Clock.limit) (hfalse : (v.verify asked answered secret stored).1 = false) :
    Abreast hasher Q (v.verify asked answered secret stored).2 w last asked := by
  obtain ⟨hrecalls, hcache⟩ := cache_of_failed hfalse
  obtain ⟨-, hhasher, hkey, -⟩ := step_frame v ⟨asked, answered, .verify secret stored⟩
  rw [step_verify] at hhasher hkey
  have hexpired := expired_of_not_recalls h.justified hseparated hpair hrecalls
  constructor
  · exact hhasher.trans h.left
  · exact h.right
  · intro state
    have halike := h.alike state
    constructor
    · show (v.verify asked answered secret stored).2.hasher.frozen state = w.hasher.frozen state
      rw [hhasher, h.left, h.right]
    · rfl
    · exact hkey.trans halike.keySecret
    · show Cache.Alike (v.verify asked answered secret stored).2.cache w.cache last asked
      rw [hcache]
      exact halike.cache.erase_stale hsince hasked hexpired
  · apply h.justified.of_subset hkey
    intro entry hentry
    rw [hcache] at hentry
    exact (Cache.mem_erase.mp hentry).1

/-- A token made by the first one leaves them abreast. -/
theorem Abreast.made (h : Abreast hasher Q v w last since) (secret : Bytes) :
    Abreast hasher Q (v.createCredential secret).2 w last since := by
  rw [createCredential_snd]
  exact ⟨h.left, h.right, h.alike, h.justified⟩

/-- A deed of the first one that leaves no trace leaves them abreast. -/
theorem Abreast.strike (h : Abreast hasher Q v w last since)
    (hseparated : Separated v.keySecret Q)
    (hQ : ∀ secret stored, e.op = .verify secret stored → Q (secret, stored))
    (hsince : since ≤ e.asked) (hforward : e.asked ≤ e.answered) (hbelow : e.answered < Clock.limit)
    (htraceless : (v.deed e).Traceless) :
    Abreast hasher Q (v.step e).2 w last e.answered := by
  obtain ⟨asked, answered, op⟩ := e
  cases htraceless with
  | @failed secret stored hop hfalse =>
      cases hop
      have hasked : asked < Clock.limit := Nat.lt_of_le_of_lt hforward hbelow
      have hfailed := h.failed hseparated (hQ secret stored rfl) hsince hasked
        (Answer.verdict.inj hfalse)
      exact hfailed.mono (Nat.le_refl last) hforward
  | @made secret hop =>
      cases hop
      exact (h.made secret).mono (Nat.le_refl last) (Nat.le_trans hsince hforward)

/-- A check does the same on both, with the same calls. -/
theorem Abreast.verify (h : Abreast hasher Q v w last since) (hderive : hasher.Derives derive)
    (hlast : last ≤ asked) (hsince : since ≤ asked) (hforward : asked ≤ answered)
    (hbelow : answered < Clock.limit) (secret stored : Bytes) :
    (v.verify asked answered secret stored).1 = (w.verify asked answered secret stored).1 ∧
      (v.deed ⟨asked, answered, .verify secret stored⟩).calls =
        (w.deed ⟨asked, answered, .verify secret stored⟩).calls := by
  obtain ⟨hderiveV, hderiveW⟩ := h.derives hderive
  constructor
  · have hfrozen :=
      ((h.alike v.hashing).verify hlast hsince hforward hbelow secret stored).1
    rwa [verify_frozen hderiveV, verify_frozen hderiveW] at hfrozen
  · have hasked : asked < Clock.limit := Nat.lt_of_le_of_lt hforward hbelow
    by_cases hrecalls : v.Recalls asked secret stored
    · have hrecallsW := (h.recalls_iff hsince hasked).mp hrecalls
      rw [calls_of_recalls answered hrecalls, calls_of_recalls answered hrecallsW]
    · have hrecallsW : ¬ w.Recalls asked secret stored :=
        fun hw => hrecalls ((h.recalls_iff hsince hasked).mpr hw)
      rw [calls_of_not_recalls answered h.left hrecalls,
        calls_of_not_recalls answered h.right hrecallsW]
      simp only [hderiveV secret, hderiveW secret]

/-- One operation on both is seen the same. -/
theorem Abreast.seen_eq (h : Abreast hasher Q v w last since) (hderive : hasher.Derives derive)
    (hlast : e.op.isUpkeep = false → last ≤ e.asked) (hsince : since ≤ e.asked)
    (hforward : e.asked ≤ e.answered) (hbelow : e.answered < Clock.limit) :
    (v.deed e).seen = (w.deed e).seen := by
  obtain ⟨asked, answered, op⟩ := e
  cases op with
  | verify secret stored =>
      obtain ⟨hverdict, hcalls⟩ :=
        h.verify hderive (hlast rfl) hsince hforward hbelow secret stored
      exact seen_congr (congrArg Answer.verdict hverdict) hcalls
  | create secret => rfl
  | cacheSize =>
      have hasked : asked < Clock.limit := Nat.lt_of_le_of_lt hforward hbelow
      have hsize : (v.cacheSize asked).1 = (w.cacheSize asked).1 :=
        (h.alike v.hashing).cache.size_sweep hsince hasked
      apply seen_congr
      · exact congrArg Answer.count hsize
      · rw [calls_of_still rfl, calls_of_still rfl]
  | clearCache | shutdown | sweep =>
      apply seen_congr
      · rfl
      · rw [calls_of_still rfl, calls_of_still rfl]

end Abreast

/-! ### Runs -/

section Run

variable {hasher : Hasher σ} {derive : Bytes → String → Except HashError String}
  {Q : Bytes × Bytes → Prop} {v w : Verifier (List HashCall × σ)} {last since : Nat} {e : Event}
  {events : List Event} {kept : List Deed}

/-- What is asked for after an operation comes after everything that it touched. -/
theorem last_le_of_mem {rest : List Event} (hclock : ClientClock (e :: rest))
    (hlast : ∀ b ∈ clientEvents (e :: rest), last ≤ b.asked) :
    ∀ b ∈ clientEvents rest, (if e.op.isUpkeep then last else e.answered + 1) ≤ b.asked := by
  intro b hb
  cases hop : e.op.isUpkeep with
  | true =>
      apply hlast
      exact ((List.sublist_cons_self e rest).filter _).subset hb
  | false =>
      have hincreasing := hclock.increasing
      rw [clientEvents, List.filter_cons_of_pos (by simp [hop])] at hincreasing
      exact (List.pairwise_cons.mp hincreasing).1 b hb

/-- The run of a verifier and what is left of it on another one, abreast of the first, are seen the
same and leave the two abreast. -/
theorem Abreast.replay (h : Abreast hasher Q v w last since) (hderive : hasher.Derives derive)
    (hseparated : Separated v.keySecret Q)
    (hQ : ∀ e ∈ events, ∀ secret stored, e.op = .verify secret stored → Q (secret, stored))
    (hclock : ClientClock events) (hlast : ∀ e ∈ clientEvents events, last ≤ e.asked)
    (hsince : ∀ e ∈ events, since ≤ e.asked) (hkept : Prunes (v.chronicle events) kept) :
    (w.chronicle (kept.map Deed.event)).map Deed.seen = kept.map Deed.seen ∧
      ∀ now, since ≤ now → (∀ e ∈ events, e.answered ≤ now) → ∃ last,
        Abreast hasher Q (v.run events).2 (w.run (kept.map Deed.event)).2 last now := by
  induction events generalizing v w last since kept with
  | nil =>
      cases hkept
      refine ⟨rfl, ?_⟩
      intro now hnow _
      exact ⟨last, h.mono (Nat.le_refl last) hnow⟩
  | cons e rest ih =>
      have he : e ∈ e :: rest := List.mem_cons_self
      have hstart := hsince e he
      have hforward := hclock.forward e he
      have hbelow := hclock.below e he
      have hafter : ∀ b ∈ rest, e.answered ≤ b.asked := (List.pairwise_cons.mp hclock.ordered).1
      have hhead : e.op.isUpkeep = false → last ≤ e.asked := by
        intro hop
        apply hlast
        exact List.mem_filter.mpr ⟨he, by simp [hop]⟩
      have hQrest : ∀ b ∈ rest, ∀ secret stored, b.op = .verify secret stored →
          Q (secret, stored) := fun b hb => hQ b (List.mem_cons_of_mem e hb)
      have hnext : Separated (v.step e).2.keySecret Q := by
        rw [(step_frame v e).2.2.1]
        exact hseparated
      rw [chronicle] at hkept
      cases hkept with
      | keep _ hkept =>
          have hstep := h.step hderive (hQ e he) hhead hstart hforward hbelow
          obtain ⟨hseen, hend⟩ := ih hstep hnext hQrest hclock.tail (last_le_of_mem hclock hlast)
            hafter hkept
          constructor
          · have hdeed := h.seen_eq hderive hhead hstart hforward hbelow
            rw [List.map_cons, List.map_cons, show (v.deed e).event = e from rfl, chronicle,
              List.map_cons, hseen, hdeed]
          · intro now _ hnow
            exact hend now (hnow e he) fun b hb => hnow b (List.mem_cons_of_mem e hb)
      | strike htraceless hkept =>
          have hstruck := h.strike hseparated (hQ e he) hstart hforward hbelow htraceless
          have hlastRest : ∀ b ∈ clientEvents rest, last ≤ b.asked := fun b hb =>
            hlast b (((List.sublist_cons_self e rest).filter _).subset hb)
          obtain ⟨hseen, hend⟩ := ih hstruck hnext hQrest hclock.tail hlastRest hafter hkept
          refine ⟨hseen, ?_⟩
          intro now _ hnow
          exact hend now (hnow e he) fun b hb => hnow b (List.mem_cons_of_mem e hb)

/-- **Failed attempts leave no trace.** Let what the hasher gives for an existing token be a function
of secret and text, let the clock grow from one call of a client to the next, and let the keys tell
the presented pairs apart. If any checks that failed and any tokens that were made are left out of a
run, and everything else is asked at its time, then all that is left is answered as before, with the
same calls of the hasher, and the same successes are remembered at every later time. -/
theorem failures_leave_no_trace {config : Config} {hashing : σ} {keySecret : Bytes} {runtime : Bool}
    (hset : setUp config hasher.logging ([], hashing) keySecret runtime = .ok v)
    (hderive : hasher.Derives derive) (hclock : ClientClock events)
    (hseparated : PairsSeparated keySecret events) (hkept : Prunes (v.chronicle events) kept) :
    (v.chronicle (kept.map Deed.event)).map Deed.seen = kept.map Deed.seen ∧
      ∀ now, (∀ e ∈ events, e.answered ≤ now) → now < Clock.limit → ∀ secret stored,
        ((v.run (kept.map Deed.event)).2.Recalls now secret stored ↔
          (v.run events).2.Recalls now secret stored) := by
  obtain ⟨-, -, hhasher, -, rfl, hcache⟩ := setUp_eq_ok hset
  have hstart : Abreast hasher (fun pair => Presented events pair.1 pair.2) v v 0 0 := by
    constructor
    · exact hhasher
    · exact hhasher
    · intro state
      refine ⟨rfl, rfl, rfl, ?_⟩
      show Cache.Alike v.cache v.cache 0 0
      rw [hcache]
      exact Cache.Alike.empty config.bounds 0 0
    · exact setUp_justified hset
  have hpresented : ∀ e ∈ events, ∀ secret stored, e.op = .verify secret stored →
      Presented events secret stored := fun e he _ _ hop => ⟨e, he, hop⟩
  obtain ⟨hseen, hend⟩ := hstart.replay hderive hseparated hpresented hclock
    (fun e _ => Nat.zero_le e.asked) (fun e _ => Nat.zero_le e.asked) hkept
  refine ⟨hseen, ?_⟩
  intro now hnow hbelow secret stored
  obtain ⟨last, habreast⟩ := hend now (Nat.zero_le now) hnow
  exact (habreast.recalls_iff (Nat.le_refl now) hbelow).symm

end Run

/-! ### Guesses between two checks that fit -/

/-- A hasher that gives every token back for one secret, refuses all others, and numbers its fresh
tokens. -/
def clerk : Hasher Nat where
  crypt secret existing state :=
    (match existing with
      | some text => if secret = [1] then .ok text else .error (.primitive "no match")
      | none => .ok (toString state), state + 1)

/-- A new verifier with that hasher and one place. -/
def desk : Verifier (List HashCall × Nat) :=
  ⟨⟨1, 1, 1, none⟩, clerk.logging, ([], 0), [7], .empty (Config.bounds ⟨1, 1, 1, none⟩), none⟩

/-- The right secret, a wrong one, a token made, stored bytes that are no text, the right secret
again, and a count. -/
def guessed : List Event :=
  [⟨1, 2, .verify [1] (Utf8.encode "token")⟩, ⟨3, 4, .verify [2] (Utf8.encode "token")⟩,
    ⟨5, 6, .create [2]⟩, ⟨7, 8, .verify [1] [255]⟩, ⟨9, 10, .verify [1] (Utf8.encode "token")⟩,
    ⟨11, 11, .cacheSize⟩]

/-- The same without the guesses and the token made. -/
def unguessed : List Event :=
  [⟨1, 2, .verify [1] (Utf8.encode "token")⟩, ⟨9, 10, .verify [1] (Utf8.encode "token")⟩,
    ⟨11, 11, .cacheSize⟩]

theorem guessed_separated : PairsSeparated [7] guessed :=
  pairsSeparated_of_nodup (by decide +kernel)

/-- Three deeds of six may be struck out. What is left is answered as it was, and the success that
was remembered after the guesses is remembered without them. -/
theorem same_unguessed :
    setUp ⟨1, 1, 1, none⟩ clerk.logging ([], 0) [7] false = .ok desk ∧ ClientClock guessed ∧
      PairsSeparated [7] guessed ∧
      ∃ kept, Prunes (desk.chronicle guessed) kept ∧ kept.map Deed.event = unguessed ∧
        (desk.chronicle unguessed).map Deed.seen = kept.map Deed.seen ∧
        (desk.run unguessed).2.Recalls 12 [1] (Utf8.encode "token") := by
  have hset : setUp ⟨1, 1, 1, none⟩ clerk.logging ([], 0) [7] false = .ok desk := rfl
  have hderive : clerk.Derives fun secret text =>
      if secret = [1] then .ok text else .error (.primitive "no match") := fun _ _ _ => rfl
  have hclock : ClientClock guessed := by decide
  have hwrong : ((desk.step ⟨1, 2, .verify [1] (Utf8.encode "token")⟩).2.verify 3 4 [2]
      (Utf8.encode "token")).1 = false := by
    decide +kernel
  have hremembered : (desk.run guessed).2.Recalls 12 [1] (Utf8.encode "token") :=
    ⟨⟨desk.key [1] (Utf8.encode "token"), "token", 9⟩, by decide +kernel⟩
  have hpruned : ∃ kept, Prunes (desk.chronicle guessed) kept ∧
      kept.map Deed.event = unguessed := by
    rw [guessed, chronicle, chronicle, chronicle, chronicle, chronicle, chronicle, chronicle]
    apply Exists.intro
    constructor
    · apply Prunes.keep
      apply Prunes.strike (traceless_of_failed 4 hwrong)
      apply Prunes.strike (.made rfl)
      apply Prunes.strike (traceless_of_failed 8 (verify_of_no_text (by decide) 7 8))
      apply Prunes.keep
      apply Prunes.keep
      exact Prunes.nil
    · rfl
  obtain ⟨kept, hkept, hevents⟩ := hpruned
  obtain ⟨hseen, hrecalls⟩ :=
    failures_leave_no_trace hset hderive hclock guessed_separated hkept
  rw [hevents] at hseen hrecalls
  refine ⟨hset, hclock, guessed_separated, kept, hkept, hevents, hseen, ?_⟩
  exact (hrecalls 12 (by decide) (by decide) [1] _).mpr hremembered

end Verifier

end AccessControl
