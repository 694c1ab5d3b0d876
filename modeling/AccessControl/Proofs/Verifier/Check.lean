import AccessControl.Proofs.Cache.Entries
import AccessControl.Verifier.Run

/-!
A check, case by case.

A check recalls a success if the entry under the key of its pair has not expired and holds the
stored token itself (`Recalls`). Then it is true and touches that entry (`verify_of_recalls`). In
every other case, be the entry missing, expired or another token's, the entry is gone and the hash
decides (`verify_of_not_recalls`, `check_cases`). All that matters of a hasher is what it does with
existing tokens (`verify_rehash`).
-/

namespace AccessControl

/-- A text is the stored token exactly when the stored bytes read as that text. -/
theorem sameBytes_encode_iff {stored : Bytes} {text : String} :
    sameBytes stored (Utf8.encode text) = true ↔ Utf8.decode? stored = some text := by
  rw [sameBytes_iff, Utf8.decode?_eq_some_iff]
  exact eq_comm

namespace Verifier

variable {σ : Type} {v : Verifier σ} {secret stored : Bytes} {asked answered now : Nat}

/-- The success of a pair is remembered at a time. -/
def Recalls (v : Verifier σ) (now : Nat) (secret stored : Bytes) : Prop :=
  ∃ e, v.cache.find? (v.key secret stored) = some e ∧ v.cache.isExpired now e = false ∧
    Utf8.decode? stored = some e.value

/-- A remembered success is the answer, and its entry is touched. -/
theorem verify_of_recalls (h : v.Recalls asked secret stored) :
    v.verify asked answered secret stored =
      (true, { v with cache := v.cache.touch asked (v.key secret stored) }) := by
  obtain ⟨e, hfound, hlive, htext⟩ := h
  unfold verify
  simp only [Cache.get_of_live hfound hlive, sameBytes_encode_iff.mpr htext, if_true]

/-- Without a remembered success nothing stays under the key, and the hash decides. -/
theorem verify_of_not_recalls (h : ¬ v.Recalls asked secret stored) :
    v.verify asked answered secret stored =
      check { v with cache := v.cache.erase (v.key secret stored) } answered secret stored := by
  unfold verify
  cases hfound : v.cache.find? (v.key secret stored) with
  | none =>
      simp only [Cache.get_of_missing hfound, Cache.erase_eq_self hfound]
  | some e =>
      cases hlive : v.cache.isExpired asked e with
      | true => simp only [Cache.get_of_expired hfound hlive]
      | false =>
          -- An entry that lives and is not recalled holds another token.
          have hother : ¬ sameBytes stored (Utf8.encode e.value) = true := by
            intro hsame
            exact h ⟨e, hfound, hlive, sameBytes_encode_iff.mp hsame⟩
          have hremoved : (v.cache.touch asked (v.key secret stored)).invalidateIf
              (v.key secret stored) (fun current => current == e.value) = (true, _) :=
            Cache.invalidateIf_of_holds (Cache.find?_touch hfound) (by simp)
          simp only [Cache.get_of_live hfound hlive, if_neg hother, hremoved, Cache.erase_touch]

/-- What a check by the hash does: a stored token that is no text fails without a call; otherwise
the hasher is called once, and only the token itself as its answer is a success to remember. -/
theorem check_cases (v : Verifier σ) (now : Nat) (secret stored : Bytes) :
    (Utf8.decode? stored = none ∧ v.check now secret stored = (false, v)) ∨
    ∃ text, Utf8.decode? stored = some text ∧
      (((v.hasher.crypt secret (some text) v.hashing).1 = .ok text ∧
          v.check now secret stored =
            (true, { v with
              hashing := (v.hasher.crypt secret (some text) v.hashing).2
              cache := v.cache.insert now (v.key secret stored) text })) ∨
        ((v.hasher.crypt secret (some text) v.hashing).1 ≠ .ok text ∧
          v.check now secret stored =
            (false, { v with
              hashing := (v.hasher.crypt secret (some text) v.hashing).2 }))) := by
  unfold check
  cases htext : Utf8.decode? stored with
  | none => exact Or.inl ⟨rfl, rfl⟩
  | some text =>
      refine Or.inr ⟨text, rfl, ?_⟩
      cases hanswer : (v.hasher.crypt secret (some text) v.hashing).1 with
      | error error => exact Or.inr ⟨by simp, by simp [hanswer]⟩
      | ok fresh =>
          by_cases hsame : fresh = text
          · subst hsame
            exact Or.inl ⟨rfl, by simp [hanswer, sameBytes_encode_iff.mpr htext, key]⟩
          · have hother : ¬ sameBytes stored (Utf8.encode fresh) = true := by
              rw [sameBytes_encode_iff, htext]
              simpa using Ne.symm hsame
            exact Or.inr ⟨by simpa using hsame, by simp [hanswer, hother]⟩

/-- A check by the hash calls the hasher if the stored token is a text, and not otherwise. -/
theorem check_hashing (v : Verifier σ) (now : Nat) (secret stored : Bytes) :
    (v.check now secret stored).2.hashing =
      match Utf8.decode? stored with
      | none => v.hashing
      | some text => (v.hasher.crypt secret (some text) v.hashing).2 := by
  rcases check_cases v now secret stored with
    ⟨hnone, hcheck⟩ | ⟨text, htext, ⟨-, hcheck⟩ | ⟨-, hcheck⟩⟩
  · rw [hcheck, hnone]
  · rw [hcheck, htext]
  · rw [hcheck, htext]

/-! ### The same check with another hasher -/

/-- The verifier with another hasher, whose state is taken from the state of its own. -/
def rehash {τ : Type} (v : Verifier σ) (hasher : Hasher τ) (f : σ → τ) : Verifier τ :=
  ⟨v.config, hasher, f v.hashing, v.keySecret, v.cache, v.sweeper⟩

section Rehash

variable {τ : Type} {hasher : Hasher τ} {f : σ → τ}

/-- A check by the hash does the same with a hasher that does the same with existing tokens. -/
theorem check_rehash
    (h : ∀ secret text state, hasher.crypt secret (some text) (f state) =
      ((v.hasher.crypt secret (some text) state).1,
        f (v.hasher.crypt secret (some text) state).2)) :
    (v.rehash hasher f).check now secret stored =
      ((v.check now secret stored).1, (v.check now secret stored).2.rehash hasher f) := by
  unfold check rehash
  cases Utf8.decode? stored with
  | none => rfl
  | some text =>
      simp only [h]
      cases hanswer : (v.hasher.crypt secret (some text) v.hashing).1 with
      | error error => rfl
      | ok fresh =>
          by_cases hsame : sameBytes stored (Utf8.encode fresh) = true
          · simp only [if_pos hsame]
            rfl
          · simp only [if_neg hsame]

/-- A check does the same with a hasher that does the same with existing tokens. -/
theorem verify_rehash
    (h : ∀ secret text state, hasher.crypt secret (some text) (f state) =
      ((v.hasher.crypt secret (some text) state).1,
        f (v.hasher.crypt secret (some text) state).2)) :
    (v.rehash hasher f).verify asked answered secret stored =
      ((v.verify asked answered secret stored).1,
        (v.verify asked answered secret stored).2.rehash hasher f) := by
  by_cases hrecalls : v.Recalls asked secret stored
  · have hother : (v.rehash hasher f).Recalls asked secret stored := hrecalls
    rw [verify_of_recalls hrecalls, verify_of_recalls hother]
    rfl
  · have hother : ¬ (v.rehash hasher f).Recalls asked secret stored := hrecalls
    rw [verify_of_not_recalls hrecalls, verify_of_not_recalls hother]
    exact check_rehash (v := { v with cache := v.cache.erase (v.key secret stored) }) h

end Rehash

end Verifier

end AccessControl
