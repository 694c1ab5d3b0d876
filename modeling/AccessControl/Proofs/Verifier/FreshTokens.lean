import AccessControl.Proofs.Credential.Policy
import AccessControl.Proofs.Verifier.Transparency

/-!
Every token that is made verifies.

A token that is canonical for a secret is accepted by every verifier with a hasher of crypt tokens,
since the hash confirms it whatever the policy, and what the hash confirms is accepted in every
state of the memory (`verifies_of_canonical`). Fresh tokens and tokens of chosen parts are
canonical.

Main statement: `made_tokens_verify`.
-/

namespace AccessControl

open ShaCrypt (Algorithm)
open Header

/-- Every verifier with a hasher of crypt tokens accepts the token for the secret, whatever its
policy is, whatever it remembers, and whenever it is asked. -/
def Verifies (secret : Bytes) (token : Token) : Prop :=
  ∀ {σ : Type} (policy : Policy) (source : SaltSource σ) (v : Verifier σ),
    v.hasher = policy.hasher source →
    ∀ asked answered, (v.verify asked answered secret token.bytes).1 = true

theorem verifies_of_canonical {h : Header} (hvalid : h.Valid) (secret : Bytes) :
    Verifies secret ⟨h.render ++ "$" ++ h.digest secret⟩ := by
  intro σ policy source v hhasher asked answered
  refine Verifier.verify_of_confirmed (Utf8.decode?_encode _) ?_
  rw [hhasher]
  exact crypt_eq_ok_iff.mpr ⟨h, hvalid, rfl⟩

namespace Verifier

/-- A verifier with a hasher of crypt tokens makes a token with the header of its policy and the
salt that is drawn. -/
theorem createCredential_ok {σ : Type} {v : Verifier σ} {policy : Policy} {source : SaltSource σ}
    (hhasher : v.hasher = policy.hasher source) (hpolicy : policy.Valid) (secret : Bytes) :
    (v.createCredential secret).1 =
      .ok ⟨(policy.header (source.draw policy.saltLength v.hashing).1).render ++ "$" ++
        (policy.header (source.draw policy.saltLength v.hashing).1).digest secret⟩ := by
  have hcrypt : (v.hasher.crypt secret none v.hashing).1 =
      .ok ((policy.header (source.draw policy.saltLength v.hashing).1).render ++ "$" ++
        (policy.header (source.draw policy.saltLength v.hashing).1).digest secret) := by
    rw [hhasher]
    exact token_of_valid (hpolicy.header_draw source v.hashing) secret
  unfold createCredential
  simp only [hcrypt]

end Verifier

/-- **Every token that is made verifies.** A verifier whose policy is reached from the default one
by changes makes a token for every secret, whatever salt is drawn; and for parts within the limits
there is a token that begins with their header and a dollar and is derived again from the header
alone, whatever the policy. All these tokens verify everywhere. -/
theorem made_tokens_verify (secret : Bytes) :
    (∀ {σ : Type} (changes : List Policy.Change) (source : SaltSource σ) (v : Verifier σ),
      v.hasher = (Policy.ofChanges changes).hasher source →
      ∃ token, (v.createCredential secret).1 = .ok token ∧ Verifies secret token) ∧
    (∀ algorithm rounds salt, (∀ n ∈ rounds, minRounds ≤ n ∧ n ≤ maxRounds) → IsSalt salt →
      ∃ text, (Header.ofParts algorithm rounds salt).token secret = .ok text ∧
        (∃ digest, text = (Header.ofParts algorithm rounds salt).render ++ "$" ++ digest) ∧
        (∀ {σ : Type} (policy : Policy) (source : SaltSource σ) (state : σ),
          ((policy.hasher source).crypt secret
            (some (Header.ofParts algorithm rounds salt).render) state).1 = .ok text) ∧
        Verifies secret ⟨text⟩) := by
  constructor
  · intro σ changes source v hhasher
    have hpolicy := Policy.valid_ofChanges changes
    exact ⟨_, Verifier.createCredential_ok hhasher hpolicy secret,
      verifies_of_canonical (hpolicy.header_draw source v.hashing) secret⟩
  · intro algorithm rounds salt hrounds hsalt
    have hvalid : (Header.ofParts algorithm rounds salt).Valid := valid_ofParts hrounds hsalt
    refine ⟨_, token_of_valid hvalid secret, ⟨_, rfl⟩, ?_, verifies_of_canonical hvalid secret⟩
    intro σ policy source state
    have hcrypt := @crypt_canonical σ policy source state _ hvalid secret "" (by simp)
    rwa [String.append_empty] at hcrypt

/-- A token made after changes of the policy and one whose salt looks like the beginning of a rounds
field both verify with a verifier of another policy. -/
theorem token_after_changes_verifies :
    ∃ v w, Verifier.setUp .default ((Policy.ofChanges [.rounds 10, .saltLength 99]).hasher
        (SaltSource.constant 5)) () [7] false = .ok v ∧
      Verifier.setUp .default (Policy.default.hasher (SaltSource.constant 0)) () [8] false = .ok w ∧
      (∃ token, (v.createCredential [1]).1 = .ok token ∧
        (w.verify 1 2 [1] token.bytes).1 = true) ∧
      ∃ text, (Header.ofParts .sha256 (some 1000) "rounds").token [1] = .ok text ∧
        (w.verify 1 2 [1] (Token.mk text).bytes).1 = true := by
  obtain ⟨hmade, hparts⟩ := made_tokens_verify [1]
  refine ⟨_, _, rfl, rfl, ?_, ?_⟩
  · obtain ⟨token, htoken, hverifies⟩ := hmade [.rounds 10, .saltLength 99] (SaltSource.constant 5)
      ⟨.default, _, (), [7], .empty Config.default.bounds, none⟩ rfl
    exact ⟨token, htoken, hverifies Policy.default (SaltSource.constant 0) _ rfl 1 2⟩
  · obtain ⟨text, htext, -, -, hverifies⟩ := hparts .sha256 (some 1000) "rounds"
      (fun n hn => by cases hn; decide) (by decide)
    exact ⟨text, htext, hverifies Policy.default (SaltSource.constant 0) _ rfl 1 2⟩

end AccessControl
