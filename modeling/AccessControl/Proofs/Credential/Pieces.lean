import AccessControl.Proofs.Credential.Header

/-!
The pieces of a stored text.

A text under a known tag is cut at its rounds field, if it has one, and at the dollar that ends the
salt. There is one way to do this (`existsUnique_cut`), so what a text says about its making can
be told piece by piece, also where it is nothing that a hasher writes.
-/

namespace AccessControl

open ShaCrypt (Algorithm)
open Header

/-- The pieces of a text: the algorithm of its tag, the digits of its rounds field, the salt, and
what follows the salt. -/
structure Pieces where
  algorithm : Algorithm
  digits? : Option (List Char)
  salt : List Char
  rest : List Char

namespace Pieces

/-- The characters behind the tag. -/
def body (p : Pieces) : List Char :=
  match p.digits? with
  | none => p.salt ++ p.rest
  | some digits => roundsField.toList ++ (digits ++ '$' :: (p.salt ++ p.rest))

/-- The text that is put together from the pieces. -/
def text (p : Pieces) : String := String.ofList ((tag p.algorithm).toList ++ p.body)

/-- The pieces are cut in the right places: digits are digits, only the rounds field counts as one,
and the salt ends at the first dollar. -/
structure Cut (p : Pieces) : Prop where
  digits : ∀ digits ∈ p.digits?, digits ≠ [] ∧ ∀ c ∈ digits, c.isDigit = true
  noField : p.digits? = none → ∀ digits rest, ¬ HasField (p.salt ++ p.rest) digits rest
  salt : ∀ c ∈ p.salt, c ≠ '$'
  rest : ∀ c ∈ p.rest.head?, c = '$'

variable {p q : Pieces}

/-! ### One way to cut -/

theorem tag_append_inj {a b : Algorithm} {x y : List Char}
    (h : (tag a).toList ++ x = (tag b).toList ++ y) : a = b ∧ x = y := by
  have hread := congrArg readTag h
  rw [readTag_append, readTag_append] at hread
  cases hread
  exact ⟨rfl, rfl⟩

/-- A text has one rounds field at most. -/
theorem hasField_inj {text digits rest digits' rest' : List Char}
    (h : HasField text digits rest) (h' : HasField text digits' rest') :
    digits = digits' ∧ rest = rest' := by
  have hsame := List.append_cancel_left (h.text_eq.symm.trans h'.text_eq)
  have hdigits : digits = digits' := by
    rw [← h.takeWhile_isDigit, ← h'.takeWhile_isDigit, hsame]
  subst hdigits
  exact ⟨rfl, (List.cons.inj (List.append_cancel_left hsame)).2⟩

theorem Cut.hasField (h : p.Cut) {digits : List Char} (hdigits : p.digits? = some digits) :
    HasField p.body digits (p.salt ++ p.rest) := by
  obtain ⟨hnonempty, hchars⟩ := h.digits digits hdigits
  refine ⟨?_, hnonempty, hchars⟩
  rw [body, hdigits]

/-- The salt is what stands before the first dollar. -/
theorem Cut.salt_rest_inj (hp : p.Cut) (hq : q.Cut) (h : p.salt ++ p.rest = q.salt ++ q.rest) :
    p.salt = q.salt ∧ p.rest = q.rest := by
  have hsalt : ∀ {r : Pieces}, r.Cut → (r.salt ++ r.rest).takeWhile (· ≠ '$') = r.salt := by
    intro r hr
    refine takeWhile_append_stop (fun c hc => decide_eq_true (hr.salt c hc)) fun c hc => ?_
    simp [hr.rest c hc]
  have hsame : p.salt = q.salt := by rw [← hsalt hp, ← hsalt hq, h]
  rw [hsame] at h
  exact ⟨hsame, List.append_cancel_left h⟩

/-- Pieces that are cut in the right places are told by the text they make. -/
theorem text_inj (hp : p.Cut) (hq : q.Cut) (h : p.text = q.text) : p = q := by
  obtain ⟨halgorithm, hbody⟩ := tag_append_inj (String.ofList_injective h)
  obtain ⟨algorithm, digits?, salt, rest⟩ := p
  obtain ⟨algorithm', digits?', salt', rest'⟩ := q
  cases halgorithm
  cases digits? with
  | none =>
      cases digits?' with
      | none =>
          obtain ⟨hsalt, hrest⟩ := hp.salt_rest_inj hq hbody
          cases hsalt
          cases hrest
          rfl
      | some digits' =>
          refine absurd (hq.hasField rfl) ?_
          rw [← hbody]
          exact hp.noField rfl digits' (salt' ++ rest')
  | some digits =>
      have hfield := hp.hasField rfl
      rw [hbody] at hfield
      cases digits?' with
      | none => exact absurd hfield (hq.noField rfl digits (salt ++ rest))
      | some digits' =>
          obtain ⟨hdigits, hback⟩ := hasField_inj hfield (hq.hasField rfl)
          obtain ⟨hsalt, hrest⟩ := hp.salt_rest_inj hq hback
          cases hdigits
          cases hsalt
          cases hrest
          rfl

/-- A text under a tag can be cut. -/
theorem exists_cut (algorithm : Algorithm) (rest : List Char) :
    ∃ p : Pieces, p.Cut ∧ p.text = String.ofList ((tag algorithm).toList ++ rest) := by
  have hsalt : ∀ back : List Char, ∀ c ∈ back.takeWhile (· ≠ '$'), c ≠ '$' := by
    intro back c hc
    have := List.mem_takeWhile_imp hc
    simpa using this
  have hend : ∀ back : List Char, ∀ c ∈ (back.dropWhile (· ≠ '$')).head?, c = '$' := by
    intro back c hc
    have := List.head?_dropWhile_not (fun c => decide (c ≠ '$')) back
    rw [hc] at this
    simpa using this
  by_cases hfield : ∃ digits more, HasField rest digits more
  · obtain ⟨digits, more, hfield⟩ := hfield
    refine ⟨⟨algorithm, some digits, more.takeWhile (· ≠ '$'), more.dropWhile (· ≠ '$')⟩,
      ⟨?_, ?_, hsalt more, hend more⟩, ?_⟩
    · intro _ hdigits
      cases hdigits
      exact ⟨hfield.nonempty, hfield.isDigit⟩
    · intro hnone
      cases hnone
    · rw [hfield.text_eq]
      simp only [text, body, List.takeWhile_append_dropWhile]
  · refine ⟨⟨algorithm, none, rest.takeWhile (· ≠ '$'), rest.dropWhile (· ≠ '$')⟩,
      ⟨?_, ?_, hsalt rest, hend rest⟩, ?_⟩
    · intro digits hdigits
      cases hdigits
    · intro _ digits more h
      rw [List.takeWhile_append_dropWhile] at h
      exact hfield ⟨digits, more, h⟩
    · simp only [text, body, List.takeWhile_append_dropWhile]

/-- **There is one way to cut** a text under a known tag. -/
theorem existsUnique_cut (algorithm : Algorithm) (rest : List Char) :
    ∃! p : Pieces, p.Cut ∧ p.text = String.ofList ((tag algorithm).toList ++ rest) := by
  obtain ⟨p, hcut, htext⟩ := exists_cut algorithm rest
  exact ⟨p, ⟨hcut, htext⟩, fun q hq => text_inj hq.1 hcut (hq.2.trans htext.symm)⟩

end Pieces

end AccessControl
