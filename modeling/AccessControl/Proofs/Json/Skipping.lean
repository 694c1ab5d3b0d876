import AccessControl.Proofs.Json.Numbers

/-!
Skipping values that are not wanted.

Every value is skipped to its end, whatever is open around it (`skipValue_of_value`). The induction is
on the derivation of the text; each kind of text says what is done with it (`Skips`).
-/

namespace AccessControl.Json

variable {before text rest bytes inner after body : Bytes} {frames : List Frame} {b : UInt8}
  {members : List Member}

/-! ### Scalars -/

theorem readWord_append (letters rest : Bytes) : readWord letters (letters ++ rest) = .ok rest := by
  induction letters with
  | nil => rfl
  | cons letter letters ih => rw [List.cons_append, readWord, if_pos rfl, ih]

theorem skipScalar_word {letters : Bytes} {found : Found} (h : word? b = some (letters, found))
    (rest : Bytes) : skipScalar (b :: (letters ++ rest)) = .ok rest := by
  obtain ⟨-, hbegins, hquote, -⟩ := word?_first h
  simp only [skipScalar, if_neg hquote, hbegins, Bool.false_eq_true, if_false, h, readWord_append]

theorem skipScalar_string (h : StringBody body) (rest : Bytes) :
    skipScalar (Ascii.quote :: (body ++ Ascii.quote :: rest)) = .ok rest := by
  obtain ⟨text, hread⟩ := readString_of_body h rest
  simp only [skipScalar, if_true, hread]

theorem skipScalar_number {numeral : Numeral} (h : NumeralText numeral text) (hrest : Ends rest) :
    skipScalar (text ++ rest) = .ok rest := by
  obtain ⟨b, more, rfl, hbegins⟩ := h.eq_cons
  have hquote : b ≠ Ascii.quote := beginsNumber_ne hbegins rfl
  have hread : readNumeral .invalidNumber (b :: more ++ rest) = .ok (numeral, rest) :=
    readNumeral_append h hrest
  rw [List.cons_append] at hread ⊢
  simp only [skipScalar, if_neg hquote, hbegins, if_true, hread]

/-! ### One step of skipping -/

/-- What is done at the first byte of a value. -/
theorem skipValue_cons (h : skipBlanks bytes = b :: rest) :
    skipValue frames bytes =
      if b = Ascii.openBracket then
        match skipBlanks rest with
        | [] => .error ⟨.endInList, []⟩
        | c :: inner =>
          if c = Ascii.closeBracket then skipFrames frames inner
          else skipValue (.list :: frames) rest
      else if b = Ascii.openBrace then
        match skipBlanks rest with
        | [] => .error ⟨.endInObject, []⟩
        | c :: inner =>
          if c = Ascii.closeBrace then skipFrames frames inner
          else (skipKey rest).bind (skipValue (.object :: frames))
      else (skipScalar (b :: rest)).bind (skipFrames frames) := by
  rw [skipValue]
  split
  · rename_i hblanks
    rw [h] at hblanks
    cases hblanks
  · rename_i hblanks
    rw [h] at hblanks
    cases hblanks
    congr 1
    · split <;> rename_i hopen <;> simp only [hopen]
    · congr 1
      · split <;> rename_i hopen <;> simp only [hopen]
        congr 1
        split <;> rename_i hkey <;> rw [hkey] <;> rfl
      · split <;> rename_i hscalar <;> simp only [hscalar, Except.bind]

/-- What is done at the first byte behind a value. -/
theorem skipFrames_cons {frame : Frame} (h : skipBlanks bytes = b :: rest) :
    skipFrames (frame :: frames) bytes =
      if b = frame.close then skipFrames frames rest
      else if b = Ascii.comma then
        match frame with
        | .list => skipValue (.list :: frames) rest
        | .object => (skipKey rest).bind (skipValue (.object :: frames))
      else .error (.atNext frame.expectedComma (b :: rest)) := by
  rw [skipFrames]
  split
  · rename_i hblanks
    rw [h] at hblanks
    cases hblanks
  · rename_i hblanks
    rw [h] at hblanks
    cases hblanks
    cases frame with
    | list => rfl
    | object =>
        congr 2
        dsimp only
        split <;> rename_i hkey <;> simp only [hkey, Except.bind]

/-! ### Keys -/

theorem readColon_append (h : Blanks before) (rest : Bytes) :
    readColon (before ++ Ascii.colon :: rest) = .ok rest := by
  unfold readColon
  rw [skipBlanks_append_cons h (by rfl)]
  rfl

/-- The key of a member is skipped to where its value stands. -/
theorem skipKey_written {m : Member} (hname : StringBody m.name) (h : m.Written text)
    (rest : Bytes) :
    ∃ padded, Padded m.value padded ∧ skipKey (text ++ rest) = .ok (padded ++ rest) := by
  obtain ⟨before, between, padded, hbefore, hbetween, hpadded, rfl⟩ := h
  refine ⟨padded, hpadded, ?_⟩
  obtain ⟨key, hread⟩ := readString_of_body hname (between ++ Ascii.colon :: (padded ++ rest))
  simp only [List.append_assoc, List.cons_append]
  unfold skipKey
  rw [skipBlanks_append_cons hbefore (by rfl)]
  simp only [if_true, hread]
  exact readColon_append hbetween _

/-- The elements of a list do not begin with its end. -/
theorem skipBlanks_elements (h : Text .elements text) (rest : Bytes) :
    ∃ b inner, skipBlanks (text ++ rest) = b :: inner ∧ b ≠ Ascii.closeBracket := by
  have hfirst : ∀ {value padded : Bytes}, Text .value value → Padded value padded → ∀ rest,
      ∃ b inner, skipBlanks (padded ++ rest) = b :: inner ∧ b ≠ Ascii.closeBracket := by
    rintro value padded hvalue ⟨before, after, hbefore, -, rfl⟩ rest
    obtain ⟨b, more, rfl, hblank, hclose⟩ := hvalue.eq_cons
    refine ⟨b, more ++ (after ++ rest), ?_, hclose⟩
    simp only [List.append_assoc, List.cons_append]
    exact skipBlanks_append_cons hbefore hblank _
  cases h with
  | lastElement hvalue htext => exact hfirst hvalue htext rest
  | moreElements hvalue htext _ =>
      rw [List.append_assoc]
      exact hfirst hvalue htext _

/-- The members of an object begin with a quote. -/
theorem skipBlanks_members (h : Text (.members members) text) (rest : Bytes) :
    ∃ inner, skipBlanks (text ++ rest) = Ascii.quote :: inner := by
  have hfirst : ∀ {m : Member} {written : Bytes}, m.Written written → ∀ rest,
      ∃ inner, skipBlanks (written ++ rest) = Ascii.quote :: inner := by
    rintro m written ⟨before, between, padded, hbefore, -, -, rfl⟩ rest
    simp only [List.append_assoc, List.cons_append]
    exact ⟨_, skipBlanks_append_cons hbefore (by rfl) _⟩
  cases h with
  | lastMember _ _ htext => exact hfirst htext rest
  | moreMembers _ _ htext _ =>
      rw [List.append_assoc]
      exact hfirst htext _

/-! ### Whole texts -/

/-- What is done with a text of each kind. -/
def Skips : Form → Bytes → Prop
  | .value, text | .object _, text => ∀ before frames rest, Blanks before → Ends rest →
      skipValue frames (before ++ (text ++ rest)) = skipFrames frames rest
  | .elements, text => ∀ frames rest,
      skipValue (.list :: frames) (text ++ Ascii.closeBracket :: rest) = skipFrames frames rest
  | .members _, text => ∀ frames rest,
      (skipKey (text ++ Ascii.closeBrace :: rest)).bind (skipValue (.object :: frames)) =
        skipFrames frames rest

theorem skips_scalar (hblank : isBlank b = false) (hlist : b ≠ Ascii.openBracket)
    (hobject : b ≠ Ascii.openBrace)
    (hscalar : ∀ rest, Ends rest → skipScalar (b :: (body ++ rest)) = .ok rest) :
    Skips .value (b :: body) := by
  intro before frames rest hbefore hrest
  rw [List.cons_append, skipValue_cons (skipBlanks_append_cons hbefore hblank _), if_neg hlist,
    if_neg hobject, hscalar rest hrest]
  rfl

/-- A value that is skipped is skipped with the blanks in front of it. -/
theorem Skips.padded {value : Bytes} (h : Skips .value value) (htext : Padded value text)
    (hrest : Ends rest) (frames : List Frame) :
    ∃ after, Blanks after ∧ skipValue frames (text ++ rest) = skipFrames frames (after ++ rest) := by
  obtain ⟨before, after, hbefore, hafter, rfl⟩ := htext
  refine ⟨after, hafter, ?_⟩
  rw [List.append_assoc, List.append_assoc]
  exact h before frames (after ++ rest) hbefore (hrest.blanks_append hafter)

/-- Every text is skipped to its end. -/
theorem Text.skips {form : Form} (h : Text form text) : Skips form text := by
  induction h with
  | @word first letters found hword =>
      obtain ⟨hblank, -, -, hlist, -, hobject⟩ := word?_first hword
      exact skips_scalar hblank hlist hobject fun rest _ => skipScalar_word hword rest
  | @string body hbody =>
      refine skips_scalar rfl (by decide) (by decide) fun rest _ => ?_
      rw [List.append_assoc]
      exact skipScalar_string hbody rest
  | @number numeral text hnumeral =>
      obtain ⟨b, more, rfl, hbegins⟩ := hnumeral.eq_cons
      refine skips_scalar (isBlank_of_beginsNumber hbegins) (beginsNumber_ne hbegins rfl)
        (beginsNumber_ne hbegins rfl) fun rest hrest => ?_
      rw [← List.cons_append]
      exact skipScalar_number hnumeral hrest
  | @emptyList blanks hblanks =>
      intro before frames rest hbefore _
      simp only [List.cons_append, List.append_assoc, List.nil_append]
      rw [skipValue_cons (skipBlanks_append_cons hbefore (by rfl) _), if_pos rfl,
        skipBlanks_append_cons hblanks (by rfl)]
      rfl
  | @list text htext ih =>
      intro before frames rest hbefore _
      simp only [List.cons_append, List.append_assoc, List.nil_append]
      obtain ⟨b, inner, hinner, hclose⟩ := skipBlanks_elements htext (Ascii.closeBracket :: rest)
      rw [skipValue_cons (skipBlanks_append_cons hbefore (by rfl) _), if_pos rfl, hinner]
      simp only [if_neg hclose]
      exact ih frames rest
  | object _ ih => exact ih
  | @emptyObject blanks hblanks =>
      intro before frames rest hbefore _
      simp only [List.cons_append, List.append_assoc, List.nil_append]
      rw [skipValue_cons (skipBlanks_append_cons hbefore (by rfl) _), if_neg (by decide),
        if_pos rfl, skipBlanks_append_cons hblanks (by rfl)]
      rfl
  | @members members text htext ih =>
      intro before frames rest hbefore _
      simp only [List.cons_append, List.append_assoc, List.nil_append]
      obtain ⟨inner, hinner⟩ := skipBlanks_members htext (Ascii.closeBrace :: rest)
      rw [skipValue_cons (skipBlanks_append_cons hbefore (by rfl) _), if_neg (by decide),
        if_pos rfl, hinner]
      exact ih frames rest
  | lastElement _ htext ih =>
      intro frames rest
      obtain ⟨after, hafter, hskip⟩ :=
        ih.padded htext (Ends.closeBracket rest) (.list :: frames)
      rw [hskip, skipFrames_cons (skipBlanks_append_cons hafter (by rfl) _)]
      rfl
  | moreElements _ htext _ ih ihrest =>
      intro frames rest
      rw [List.append_assoc, List.cons_append]
      obtain ⟨after, hafter, hskip⟩ := ih.padded htext (Ends.comma _) (.list :: frames)
      rw [hskip, skipFrames_cons (skipBlanks_append_cons hafter (by rfl) _)]
      exact ihrest frames rest
  | lastMember hname _ htext ih =>
      intro frames rest
      obtain ⟨padded, hpadded, hkey⟩ := skipKey_written hname htext (Ascii.closeBrace :: rest)
      obtain ⟨after, hafter, hskip⟩ :=
        ih.padded hpadded (Ends.closeBrace rest) (.object :: frames)
      rw [hkey]
      show skipValue (.object :: frames) (padded ++ Ascii.closeBrace :: rest) = _
      rw [hskip, skipFrames_cons (skipBlanks_append_cons hafter (by rfl) _)]
      rfl
  | moreMembers hname _ htext _ ih ihrest =>
      intro frames rest
      rw [List.append_assoc, List.cons_append]
      obtain ⟨padded, hpadded, hkey⟩ := skipKey_written hname htext (Ascii.comma :: _)
      obtain ⟨after, hafter, hskip⟩ := ih.padded hpadded (Ends.comma _) (.object :: frames)
      rw [hkey]
      show skipValue (.object :: frames) (padded ++ Ascii.comma :: _) = _
      rw [hskip, skipFrames_cons (skipBlanks_append_cons hafter (by rfl) _)]
      exact ihrest frames rest

/-- Every value is skipped to its end. -/
theorem skipValue_of_value {value : Bytes} (h : Text .value value) (hbefore : Blanks before)
    (hrest : Ends rest) : skipValue [] (before ++ (value ++ rest)) = .ok rest := by
  rw [h.skips before [] rest hbefore hrest, skipFrames]

end AccessControl.Json
