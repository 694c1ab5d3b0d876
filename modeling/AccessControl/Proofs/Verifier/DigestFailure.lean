import AccessControl.Proofs.Credential.Grammar
import AccessControl.Proofs.Credential.Policy
import AccessControl.Proofs.Verifier.Chronicle

/-!
The digest never fails.

Rounds are bounded in three places: where a policy is changed, where a header is read, and where the
digest is asked for. The first two stay in one range (`Header.clampRounds_inRange`), which is that
of the third (`Header.digest_range_iff`). So hashers of crypt tokens have no failure of their own
(`unfailing_hasher`): they make a token for every secret, and where they refuse a stored token, the
token is at fault. A verifier with such a hasher makes every token it is asked for
(`Verifier.token_of_run`), and as its hasher answers every call of a run
(`Verifier.answeredBy_of_chronicle`), none fails for the digest (`Hasher.Unfailing.not_failed`).
Only a header of one's own with rounds out of range has no token (`Header.token_eq_error_iff`).

Main statement: `digest_never_fails`.
-/

namespace AccessControl

variable {σ : Type}

/-! ### Headers -/

namespace Header

variable {h : Header} {text : String} {error : HashError}

/-- Where no header can be read, the text is at fault. -/
theorem isMalformed_of_parse (hparse : parse text = .error error) : error.isMalformed = true := by
  cases parse_eq_iff_reading.mp hparse with
  | foreign hunknown htext hname => rfl
  | untagged hunknown huntagged => rfl
  | overflow htext hfield hlarge => rfl
  | unsalted htext hrounds hsalt => rfl

/-- A header has no token where digests are not defined for its rounds, and this is not the fault of
a text. -/
theorem token_eq_error_iff (h : Header) (secret : Bytes) :
    h.token secret = .error error ↔
      (h.rounds < ShaCrypt.roundsMin ∨ ShaCrypt.roundsMax < h.rounds) ∧
        error = .primitive "RoundsError" := by
  unfold token
  split
  · rename_i hrange
    refine ⟨fun hok => ?_, fun hout => by omega⟩
    cases hok
  · rename_i hrange
    have hout : h.rounds < ShaCrypt.roundsMin ∨ ShaCrypt.roundsMax < h.rounds := by omega
    rw [Except.error.injEq, eq_comm]
    exact ⟨fun herror => ⟨hout, herror⟩, fun herror => herror.2⟩

end Header

/-! ### Hashers without failures -/

/-- A hasher that makes a token for every secret, and that refuses stored tokens only where they are
at fault themselves. -/
structure Hasher.Unfailing (hasher : Hasher σ) : Prop where
  fresh : ∀ secret state, ∃ text, (hasher.crypt secret none state).1 = .ok text
  refused : ∀ {secret text state error},
    (hasher.crypt secret (some text) state).1 = .error error → error.isMalformed = true

namespace Policy

variable {policy : Policy} {source : SaltSource σ} {secret : Bytes} {text : String} {state : σ}

/-- Only headers within the limits are read, so a token is derived again wherever a header is
read. -/
theorem crypt_some_ok_iff :
    (∃ token, ((policy.hasher source).crypt secret (some text) state).1 = .ok token) ↔
      ∃ header, Header.parse text = .ok header := by
  rw [crypt_some]
  constructor
  · rintro ⟨token, htoken⟩
    obtain ⟨header, hparse, -⟩ := bind_eq_ok.mp htoken
    exact ⟨header, hparse⟩
  · rintro ⟨header, hparse⟩
    exact ⟨_, bind_eq_ok.mpr ⟨header, hparse,
      Header.token_of_valid (Header.valid_of_parse hparse) secret⟩⟩

/-- A stored token is refused for its header. -/
theorem parse_of_crypt_error {error : HashError}
    (h : ((policy.hasher source).crypt secret (some text) state).1 = .error error) :
    Header.parse text = .error error := by
  rw [crypt_some] at h
  rcases bind_eq_error.mp h with hparse | ⟨header, hparse, htoken⟩
  · exact hparse
  · rw [Header.token_of_valid (Header.valid_of_parse hparse)] at htoken
    cases htoken

/-- Within the limits of tokens there are no failures but those of stored tokens. -/
theorem unfailing_hasher (hvalid : policy.Valid) (source : SaltSource σ) :
    (policy.hasher source).Unfailing where
  fresh secret state := ⟨_, Header.token_of_valid (hvalid.header_draw source state) secret⟩
  refused h := Header.isMalformed_of_parse (parse_of_crypt_error h)

end Policy

/-! ### Calls -/

/-- A call fails with no fault of a stored token. -/
def HashCall.Failed (call : HashCall) : Prop :=
  ∃ error, call.answer = .error error ∧ error.isMalformed = false

/-- A call is answered as the hasher answers in some state. -/
def HashCall.AnsweredBy (hasher : Hasher σ) (call : HashCall) : Prop :=
  ∃ state, (hasher.crypt call.secret call.existing state).1 = call.answer

namespace Hasher.Unfailing

variable {hasher : Hasher σ}

theorem not_failed (h : hasher.Unfailing) {call : HashCall} (hcall : call.AnsweredBy hasher) :
    ¬ call.Failed := by
  rintro ⟨error, herror, hmalformed⟩
  obtain ⟨state, hanswer⟩ := hcall
  rw [herror] at hanswer
  cases hexisting : call.existing with
  | none =>
      obtain ⟨text, hok⟩ := h.fresh call.secret state
      rw [hexisting, hok] at hanswer
      cases hanswer
  | some text =>
      rw [hexisting] at hanswer
      rw [h.refused hanswer] at hmalformed
      cases hmalformed

end Hasher.Unfailing

namespace Verifier

/-! ### One operation -/

variable {hasher : Hasher σ}

/-- Making a token calls the hasher once. -/
theorem calls_of_create {v : Verifier (List HashCall × σ)} (hhasher : v.hasher = hasher.logging)
    (asked answered : Nat) (secret : Bytes) :
    (v.deed ⟨asked, answered, .create secret⟩).calls =
      [⟨secret, none, (v.hasher.crypt secret none v.hashing).1⟩] := by
  rw [deed, step_create, createCredential_snd]
  simp only [hhasher]
  rw [logging_crypt, List.drop_left]

/-- Every call that an operation makes is answered by the hasher. -/
theorem answeredBy_of_deed {v : Verifier (List HashCall × σ)} (hhasher : v.hasher = hasher.logging)
    {e : Event} {call : HashCall} (hcall : call ∈ (v.deed e).calls) : call.AnsweredBy hasher := by
  have hanswered : ∀ secret existing, HashCall.AnsweredBy hasher
      ⟨secret, existing, (v.hasher.crypt secret existing v.hashing).1⟩ := by
    rw [hhasher]
    exact fun secret existing => ⟨v.hashing.2, rfl⟩
  obtain ⟨asked, answered, op⟩ := e
  have hstill (h : (v.step ⟨asked, answered, op⟩).2.hashing = v.hashing) :
      call.AnsweredBy hasher := by
    rw [calls_of_still h] at hcall
    exact absurd hcall List.not_mem_nil
  cases op with
  | verify secret stored =>
      by_cases hrecalls : v.Recalls asked secret stored
      · rw [calls_of_recalls answered hrecalls] at hcall
        exact absurd hcall List.not_mem_nil
      · rw [calls_of_not_recalls answered hhasher hrecalls] at hcall
        cases htext : Utf8.decode? stored with
        | none =>
            rw [htext] at hcall
            exact absurd hcall List.not_mem_nil
        | some text =>
            rw [htext] at hcall
            rw [List.mem_singleton.mp hcall]
            exact hanswered secret (some text)
  | create secret =>
      rw [calls_of_create hhasher] at hcall
      rw [List.mem_singleton.mp hcall]
      exact hanswered secret none
  | cacheSize => exact hstill rfl
  | clearCache => exact hstill rfl
  | shutdown => exact hstill rfl
  | sweep => exact hstill rfl

theorem createCredential_of_crypt {v : Verifier σ} {secret : Bytes} {text : String}
    (h : (v.hasher.crypt secret none v.hashing).1 = .ok text) :
    (v.createCredential secret).1 = .ok ⟨text⟩ := by
  unfold createCredential
  simp only [h]

/-- A verifier whose hasher makes a token for every secret answers with a token. -/
theorem token_of_step {v : Verifier σ} (h : v.hasher.Unfailing) {e : Event}
    {created : Except Error Token} (hanswer : (v.step e).1 = .token created) :
    ∃ token, created = .ok token := by
  obtain ⟨asked, answered, op⟩ := e
  cases op with
  | create secret =>
      obtain ⟨text, htext⟩ := h.fresh secret v.hashing
      rw [step_create, createCredential_of_crypt htext] at hanswer
      cases hanswer
      exact ⟨⟨text⟩, rfl⟩
  | verify secret stored => cases hanswer
  | cacheSize => cases hanswer
  | clearCache => cases hanswer
  | shutdown => cases hanswer
  | sweep => cases hanswer

/-! ### Runs -/

/-- Every call in a run is answered by the hasher. -/
theorem answeredBy_of_chronicle {v : Verifier (List HashCall × σ)}
    (hhasher : v.hasher = hasher.logging) {events : List Event} {d : Deed}
    (hd : d ∈ v.chronicle events) {call : HashCall} (hcall : call ∈ d.calls) :
    call.AnsweredBy hasher := by
  induction events generalizing v with
  | nil => cases hd
  | cons e rest ih =>
      rcases List.mem_cons.mp hd with rfl | hd
      · exact answeredBy_of_deed hhasher hcall
      · exact ih ((step_frame v e).2.1.trans hhasher) hd

/-- Every token that is asked for in a run is made. -/
theorem token_of_run {v : Verifier σ} (h : v.hasher.Unfailing) {events : List Event}
    {created : Except Error Token} (hanswer : .token created ∈ (v.run events).1) :
    ∃ token, created = .ok token := by
  induction events generalizing v with
  | nil => cases hanswer
  | cons e rest ih =>
      rw [run_cons] at hanswer
      rcases List.mem_cons.mp hanswer with hhere | hrest
      · exact token_of_step h hhere.symm
      · exact ih ((step_frame v e).2.1 ▸ h) hrest

end Verifier

/-- **The digest never fails.** Whatever rounds and salt lengths a policy was changed to, and
whatever salts are drawn: its hasher makes a token for every secret, derives a stored token again
exactly where a header can be read from it, and refuses any other for a fault of the stored token.
So a verifier with this hasher makes every token that it is asked for in a run, and no call of a run
fails for the digest. Headers of one's own have no token exactly for rounds out of range, and that
is a failure of the digest. -/
theorem digest_never_fails {σ : Type} (changes : List Policy.Change) (source : SaltSource σ) :
    (∀ secret state, ∃ text,
      (((Policy.ofChanges changes).hasher source).crypt secret none state).1 = .ok text) ∧
    (∀ secret text state,
      ((∃ token,
          (((Policy.ofChanges changes).hasher source).crypt secret (some text) state).1 =
            .ok token) ↔
        ∃ header, Header.parse text = .ok header) ∧
      ∀ error,
        (((Policy.ofChanges changes).hasher source).crypt secret (some text) state).1 =
          .error error → error.isMalformed = true) ∧
    (∀ v : Verifier σ, v.hasher = (Policy.ofChanges changes).hasher source →
      ∀ events created, .token created ∈ (v.run events).1 → ∃ token, created = .ok token) ∧
    (∀ v : Verifier (List HashCall × σ),
      v.hasher = ((Policy.ofChanges changes).hasher source).logging →
      ∀ events, ∀ d ∈ v.chronicle events, ∀ call ∈ d.calls, ¬ call.Failed) ∧
    ∀ (header : Header) secret,
      ((∃ error, header.token secret = .error error) ↔
        header.rounds < 1000 ∨ 999999999 < header.rounds) ∧
      ∀ error, header.token secret = .error error → error.isMalformed = false := by
  have hunfailing := Policy.unfailing_hasher (Policy.valid_ofChanges changes) source
  refine ⟨hunfailing.fresh, fun secret text state => ⟨Policy.crypt_some_ok_iff, ?_⟩, ?_, ?_, ?_⟩
  · exact fun error => hunfailing.refused
  · intro v hhasher events created
    exact Verifier.token_of_run (hhasher ▸ hunfailing)
  · intro v hhasher events d hd call hcall
    exact hunfailing.not_failed (Verifier.answeredBy_of_chronicle hhasher hd hcall)
  · intro header secret
    constructor
    · simp only [Header.token_eq_error_iff]
      exact ⟨fun ⟨error, hout, _⟩ => hout, fun hout => ⟨_, hout, rfl⟩⟩
    · intro error herror
      rw [((Header.token_eq_error_iff header secret).mp herror).2]
      rfl

/-! ### Rounds beyond both limits -/

/-- A policy with as many rounds as can be asked for, after one with too few, and with a salt that
is too short. -/
def extremes : List Policy.Change := [.rounds 5, .rounds 4294967295, .saltLength 0]

/-- A token is made; stored tokens are checked that are no text, have another tag, too large a
number of rounds, and a number of rounds out of range. -/
def oddTokens : List Verifier.Event :=
  [⟨1, 1, .create [1]⟩, ⟨2, 2, .verify [1] [0xFF]⟩,
    ⟨3, 3, .verify [1] (Utf8.encode "$1$salt$digest")⟩,
    ⟨4, 4, .verify [1] (Utf8.encode "$6$rounds=4294967296$salt$digest")⟩,
    ⟨5, 5, .verify [1] (Utf8.encode "$6$rounds=4294967295$salt$digest")⟩]

/-- The hasher makes its token, refuses the larger number for the stored token and takes the smaller
one into range, no call of the run fails for the digest, and rounds just out of range have no
token. -/
theorem failures_of_extremes :
    ∃ v w,
      Verifier.setUp .default ((Policy.ofChanges extremes).hasher (SaltSource.constant 7)) () [9]
        false = .ok v ∧
      Verifier.setUp .default ((Policy.ofChanges extremes).hasher (SaltSource.constant 7)).logging
        ([], ()) [9] false = .ok w ∧
      (∃ token, (v.hasher.crypt [1] none ()).1 = .ok token) ∧
      (∃ token, (v.hasher.crypt [1] (some "$6$rounds=4294967295$salt$digest") ()).1 = .ok token) ∧
      (∃ error, (v.hasher.crypt [1] (some "$6$rounds=4294967296$salt$digest") ()).1 =
        .error error ∧ error.isMalformed = true) ∧
      (∀ created, .token created ∈ (v.run oddTokens).1 → ∃ token, created = .ok token) ∧
      (∀ d ∈ w.chronicle oddTokens, ∀ call ∈ d.calls, ¬ call.Failed) ∧
      ∃ error, (Header.mk .sha512 999 true "salt").token [1] = .error error ∧
        error.isMalformed = false := by
  obtain ⟨hfresh, hstored, hrun, hcalls, hheader⟩ :=
    digest_never_fails extremes (SaltSource.constant 7)
  refine ⟨_, _, rfl, rfl, hfresh [1] (), ?_, ?_, hrun _ rfl oddTokens, hcalls _ rfl oddTokens, ?_⟩
  · exact (hstored [1] _ ()).1.mpr ⟨_, rfl⟩
  · have hrefused : (((Policy.ofChanges extremes).hasher (SaltSource.constant 7)).crypt [1]
        (some "$6$rounds=4294967296$salt$digest") ()).1 =
          .error (.malformed "rounds out of range: 4294967296") := rfl
    exact ⟨_, hrefused, (hstored [1] _ ()).2 _ hrefused⟩
  · obtain ⟨hout, hfault⟩ := hheader ⟨.sha512, 999, true, "salt"⟩ [1]
    obtain ⟨error, herror⟩ := hout.mpr (Or.inl (by decide))
    exact ⟨error, herror, hfault error herror⟩

end AccessControl
