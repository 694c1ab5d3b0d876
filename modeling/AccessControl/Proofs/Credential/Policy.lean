import AccessControl.Proofs.Credential.Canonical

/-!
The headers of fresh tokens.

A policy that is reached from the default one by changing rounds and salt length stays within the
limits of tokens (`valid_ofChanges`). So the header it makes of whatever a source of salts draws is
one that can be read back (`valid_header_draw`), and the token under it is canonical.
-/

namespace AccessControl

open ShaCrypt (Algorithm)
open Header

namespace Policy

/-- A change of how fresh tokens are made. -/
inductive Change
  | rounds (rounds : Nat)
  | saltLength (length : Nat)
  deriving DecidableEq

/-- The policy after a change. -/
def change (policy : Policy) : Change → Policy
  | .rounds rounds => policy.withRounds rounds
  | .saltLength length => policy.withSaltLength length

/-- The policy that is reached from the default one by changes, one after the other. -/
def ofChanges (changes : List Change) : Policy := changes.foldl change default

/-- The limits of tokens hold for what a policy makes. -/
structure Valid (policy : Policy) : Prop where
  rounds_ge : minRounds ≤ policy.rounds
  rounds_le : policy.rounds ≤ maxRounds
  saltLength_ge : 1 ≤ policy.saltLength
  saltLength_le : policy.saltLength ≤ ShaCrypt.saltMax

variable {policy : Policy}

theorem valid_default : Valid default :=
  ⟨defaultRounds_inRange.1, defaultRounds_inRange.2, by decide, by decide⟩

/-- A change takes what it is given into range. -/
theorem Valid.change (h : policy.Valid) (change : Change) : (policy.change change).Valid := by
  obtain ⟨hge, hle, hpos, hshort⟩ := h
  cases change with
  | rounds rounds =>
      obtain ⟨hclampGe, hclampLe⟩ := clampRounds_inRange rounds
      exact ⟨hclampGe, hclampLe, hpos, hshort⟩
  | saltLength length =>
      refine ⟨hge, hle, ?_, ?_⟩
      · exact Nat.le_max_left _ _
      · exact Nat.max_le.mpr ⟨by decide, Nat.min_le_right _ _⟩

theorem Valid.foldl_change (h : policy.Valid) (changes : List Change) :
    (changes.foldl Policy.change policy).Valid := by
  induction changes generalizing policy with
  | nil => exact h
  | cons change rest ih => exact ih (h.change change)

/-- No changes lead out of the limits. -/
theorem valid_ofChanges (changes : List Change) : (ofChanges changes).Valid :=
  valid_default.foldl_change changes

end Policy

/-! ### Drawn salts -/

namespace SaltSource

variable {σ : Type} (source : SaltSource σ)

theorem length_draw (count : Nat) (state : σ) : (source.draw count state).1.length = count := by
  induction count generalizing state with
  | zero => rfl
  | succ count ih => exact congrArg (· + 1) (ih (source.next state).2)

/-- Whatever is drawn is a character of salts. -/
theorem isSaltChar_of_mem_draw (count : Nat) (state : σ) :
    ∀ c ∈ (source.draw count state).1, isSaltChar c = true := by
  induction count generalizing state with
  | zero => exact fun c hc => absurd hc List.not_mem_nil
  | succ count ih =>
      intro c hc
      rcases List.mem_cons.mp hc with rfl | hc
      · exact isSaltChar_alphabet _
      · exact ih _ c hc

end SaltSource

/-- The header of a fresh token can be read back, whatever salt is drawn. -/
theorem Policy.Valid.header_draw {σ : Type} {policy : Policy} (h : policy.Valid)
    (source : SaltSource σ) (state : σ) :
    (policy.header (source.draw policy.saltLength state).1).Valid := by
  refine ⟨h.rounds_ge, h.rounds_le, ?_, ⟨?_, ?_, ?_⟩⟩
  · by_cases hdefault : policy.rounds = defaultRounds
    · exact Or.inr hdefault
    · exact Or.inl (bne_iff_ne.mpr hdefault)
  · rw [Policy.header, String.length_ofList, SaltSource.length_draw]
    exact h.saltLength_ge
  · rw [Policy.header, String.length_ofList, SaltSource.length_draw]
    exact h.saltLength_le
  · rw [Policy.header, String.toList_ofList]
    exact source.isSaltChar_of_mem_draw policy.saltLength state

/-- The header of chosen parts can be read back if the parts are within the limits. -/
theorem Header.valid_ofParts {algorithm : Algorithm} {rounds : Option Nat} {salt : String}
    (hrounds : ∀ n ∈ rounds, minRounds ≤ n ∧ n ≤ maxRounds) (hsalt : IsSalt salt) :
    (Header.ofParts algorithm rounds salt).Valid := by
  cases rounds with
  | none => exact ⟨defaultRounds_inRange.1, defaultRounds_inRange.2, Or.inr rfl, hsalt⟩
  | some n =>
      obtain ⟨hge, hle⟩ := hrounds n rfl
      exact ⟨hge, hle, Or.inl rfl, hsalt⟩

end AccessControl
