import AccessControl.Json.Typed
import AccessControl.Proofs.Json.Grammar

/-!
Reading blanks and strings.

A reader that wants no text accepts every string body (`readString_of_body`). One that wants the text
gets the text that the body spells (`readString_of_spells`), and refuses a body that spells none
(`spells_or_refused`).
-/

namespace AccessControl.Json

variable {blanks rest digits body text : Bytes} {code : Nat} {wanted : Bool}

/-! ### Blanks -/

theorem skipBlanks_append (h : Blanks blanks) (rest : Bytes) :
    skipBlanks (blanks ++ rest) = skipBlanks rest :=
  List.dropWhile_append_of_pos h

theorem skipBlanks_of_blanks (h : Blanks blanks) : skipBlanks blanks = [] := by
  rw [← List.append_nil blanks, skipBlanks_append h]
  rfl

theorem skipBlanks_cons {b : UInt8} (h : isBlank b = false) (rest : Bytes) :
    skipBlanks (b :: rest) = b :: rest :=
  List.dropWhile_cons_of_neg (by simp [h])

/-- Behind blanks stands what is not blank. -/
theorem skipBlanks_append_cons {b : UInt8} (h : Blanks blanks) (hb : isBlank b = false)
    (rest : Bytes) : skipBlanks (blanks ++ b :: rest) = b :: rest := by
  rw [skipBlanks_append h, skipBlanks_cons hb]

/-! ### The parts of a string -/

theorem readHex_append (h : Hex digits code) (rest : Bytes) :
    readHex (digits ++ rest) = .ok (code, rest) := by
  cases h with
  | mk ha hb hc hd => simp only [List.cons_append, List.nil_append, readHex, ha, hb, hc, hd]

theorem readLowSurrogate_append {high : Nat} (h : Hex digits code) (rest : Bytes) :
    readLowSurrogate high (Ascii.backslash :: unicodeLetter :: (digits ++ rest)) =
      if 0xDC00 ≤ code && code ≤ 0xDFFF then .ok (codeText (pairedCode high code), rest)
      else .error ⟨.unpairedSurrogate, rest⟩ := by
  simp only [readLowSurrogate, ne_eq, not_true_eq_false, if_false, readHex_append h]

/-- The second half of a pair is missing unless the body goes on with it. -/
theorem readLowSurrogate_cases (high : Nat) (h : StringBody body) :
    (∃ digits low after, Hex digits low ∧ IsLow low ∧ StringBody after ∧
      body = Ascii.backslash :: unicodeLetter :: (digits ++ after)) ∨
    ∀ rest, ∃ failure, readLowSurrogate high (body ++ Ascii.quote :: rest) = .error failure := by
  cases h with
  | nil => exact Or.inr fun rest => ⟨_, rfl⟩
  | @plain b after _ hbackslash _ _ =>
      refine Or.inr fun rest => ⟨⟨.unfinishedSurrogate, after ++ Ascii.quote :: rest⟩, ?_⟩
      simp [readLowSurrogate, hbackslash]
  | @short letter b after hletter _ =>
      have hother : letter ≠ unicodeLetter := by
        rintro rfl
        cases hletter
      refine Or.inr fun rest => ⟨⟨.unfinishedSurrogate, after ++ Ascii.quote :: rest⟩, ?_⟩
      simp [readLowSurrogate, hother]
  | @long digits after code hdigits hafter =>
      by_cases hlow : IsLow code
      · exact Or.inl ⟨digits, code, after, hdigits, hlow, hafter, rfl⟩
      · refine Or.inr fun rest => ⟨⟨.unpairedSurrogate, after ++ Ascii.quote :: rest⟩, ?_⟩
        rw [List.cons_append, List.cons_append, List.append_assoc, readLowSurrogate_append hdigits,
          if_neg (by simpa [IsLow] using hlow)]

/-! ### Escapes -/

theorem readEscape_short {letter b : UInt8} (h : shortEscape? letter = some b) (rest : Bytes) :
    readEscape wanted (letter :: rest) = .ok ([b], rest) := by
  have hletter : letter ≠ unicodeLetter := by
    rintro rfl
    cases h
  simp only [readEscape, if_neg hletter, h]

/-- Where no text is wanted, any four digits will do. -/
theorem readEscape_unwanted (h : Hex digits code) (rest : Bytes) :
    readEscape false (unicodeLetter :: (digits ++ rest)) = .ok ([], rest) := by
  show readLongEscape false (digits ++ rest) = .ok ([], rest)
  simp only [readLongEscape, readHex_append h]
  rfl

theorem readEscape_single (h : Hex digits code) (hhigh : ¬ IsHigh code) (hlow : ¬ IsLow code)
    (rest : Bytes) :
    readEscape true (unicodeLetter :: (digits ++ rest)) = .ok (codeText code, rest) := by
  show readLongEscape true (digits ++ rest) = .ok (codeText code, rest)
  simp only [IsHigh, IsLow] at hhigh hlow
  simp [readLongEscape, readHex_append h, hhigh, hlow]

/-- A second half of a pair cannot come first. -/
theorem readEscape_low (h : Hex digits code) (hlow : IsLow code) (rest : Bytes) :
    readEscape true (unicodeLetter :: (digits ++ rest)) = .error ⟨.unpairedSurrogate, rest⟩ := by
  show readLongEscape true (digits ++ rest) = .error ⟨.unpairedSurrogate, rest⟩
  simp only [IsLow] at hlow
  simp [readLongEscape, readHex_append h, hlow]

/-- A first half of a pair asks for the second one. -/
theorem readEscape_high (h : Hex digits code) (hhigh : IsHigh code) (rest : Bytes) :
    readEscape true (unicodeLetter :: (digits ++ rest)) = readLowSurrogate code rest := by
  show readLongEscape true (digits ++ rest) = readLowSurrogate code rest
  have hlow : ¬ IsLow code := by
    unfold IsHigh IsLow at *
    omega
  simp only [IsHigh, IsLow] at hhigh hlow
  simp [readLongEscape, readHex_append h, hhigh, hlow]

theorem readEscape_pair {digits' : Bytes} {high low : Nat} (h : Hex digits high)
    (hhigh : IsHigh high) (h' : Hex digits' low) (hlow : IsLow low) (rest : Bytes) :
    readEscape true (unicodeLetter ::
        (digits ++ Ascii.backslash :: unicodeLetter :: (digits' ++ rest))) =
      .ok (codeText (pairedCode high low), rest) := by
  rw [readEscape_high h hhigh, readLowSurrogate_append h', if_pos (by simpa [IsLow] using hlow)]

/-! ### Strings -/

theorem readString_quote (rest : Bytes) :
    readString wanted (Ascii.quote :: rest) = .ok ([], rest) := by
  unfold readString
  rfl

/-- A byte that is not special stands for itself. -/
theorem readString_plain {b : UInt8} (hquote : b ≠ Ascii.quote) (hbackslash : b ≠ Ascii.backslash)
    (hcontrol : ¬ b < Ascii.space) (rest : Bytes) :
    readString wanted (b :: rest) =
      (readString wanted rest).map fun read => (b :: read.1, read.2) := by
  rw [readString, if_neg hquote, if_neg hbackslash, if_neg hcontrol]
  cases readString wanted rest <;> rfl

/-- A backslash begins an escape. -/
theorem readString_backslash (rest : Bytes) :
    readString wanted (Ascii.backslash :: rest) =
      (readEscape wanted rest).bind fun escape =>
        (readString wanted escape.2).map fun read => (escape.1 ++ read.1, read.2) := by
  rw [readString, if_neg (by decide), if_pos rfl]
  split <;> rename_i hescape <;> simp only [hescape, Except.bind]
  split <;> rename_i hread <;> rw [hread] <;> rfl

/-- An escape stands for what it is read as. -/
theorem readString_escape {piece after : Bytes} (h : readEscape wanted rest = .ok (piece, after)) :
    readString wanted (Ascii.backslash :: rest) =
      (readString wanted after).map fun read => (piece ++ read.1, read.2) := by
  rw [readString_backslash, h]
  rfl

theorem readString_escape_error {failure : Failure} (h : readEscape wanted rest = .error failure) :
    readString wanted (Ascii.backslash :: rest) = .error failure := by
  rw [readString_backslash, h]
  rfl

/-- Where no text is wanted, every string is read to its end. -/
theorem readString_of_body (h : StringBody body) (rest : Bytes) :
    ∃ text, readString false (body ++ Ascii.quote :: rest) = .ok (text, rest) := by
  induction h with
  | nil => exact ⟨[], readString_quote rest⟩
  | plain hquote hbackslash hcontrol _ ih =>
      obtain ⟨text, hread⟩ := ih
      rw [List.cons_append, readString_plain hquote hbackslash hcontrol, hread]
      exact ⟨_, rfl⟩
  | short hletter _ ih =>
      obtain ⟨text, hread⟩ := ih
      rw [List.cons_append, List.cons_append, readString_escape (readEscape_short hletter _), hread]
      exact ⟨_, rfl⟩
  | long hdigits _ ih =>
      obtain ⟨text, hread⟩ := ih
      rw [List.cons_append, List.cons_append, List.append_assoc,
        readString_escape (readEscape_unwanted hdigits _), hread]
      exact ⟨_, rfl⟩

/-- Where the text is wanted, it is the one that the body spells. -/
theorem readString_of_spells (h : Spells body text) (rest : Bytes) :
    readString true (body ++ Ascii.quote :: rest) = .ok (text, rest) := by
  induction h with
  | nil => exact readString_quote rest
  | plain hquote hbackslash hcontrol _ ih =>
      rw [List.cons_append, readString_plain hquote hbackslash hcontrol, ih]
      rfl
  | short hletter _ ih =>
      rw [List.cons_append, List.cons_append, readString_escape (readEscape_short hletter _), ih]
      rfl
  | long hdigits hhigh hlow _ ih =>
      rw [List.cons_append, List.cons_append, List.append_assoc,
        readString_escape (readEscape_single hdigits hhigh hlow _), ih]
      rfl
  | pair hdigits hhigh hdigits' hlow _ ih =>
      simp only [List.cons_append, List.append_assoc]
      rw [readString_escape (readEscape_pair hdigits hhigh hdigits' hlow _), ih]
      rfl

/-- A body spells no two texts. -/
theorem Spells.unique {text' : Bytes} (h : Spells body text) (h' : Spells body text') :
    text = text' := by
  have hread := readString_of_spells h []
  rw [readString_of_spells h' []] at hread
  cases hread
  rfl

/-! ### Bodies that spell no text -/

/-- A body that is refused where the text is wanted. -/
def Refused (body : Bytes) : Prop :=
  ∀ rest, ∃ failure, readString true (body ++ Ascii.quote :: rest) = .error failure

theorem Refused.plain {b : UInt8} (h : Refused body) (hquote : b ≠ Ascii.quote)
    (hbackslash : b ≠ Ascii.backslash) (hcontrol : ¬ b < Ascii.space) : Refused (b :: body) := by
  intro rest
  obtain ⟨failure, hfailure⟩ := h rest
  rw [List.cons_append, readString_plain hquote hbackslash hcontrol, hfailure]
  exact ⟨failure, rfl⟩

/-- What is refused behind an escape is refused with it. -/
theorem Refused.escape (h : Refused body) (front : Bytes) {piece : Bytes}
    (hescape : ∀ rest, readEscape true (front ++ rest) = .ok (piece, rest)) :
    Refused (Ascii.backslash :: (front ++ body)) := by
  intro rest
  obtain ⟨failure, hfailure⟩ := h rest
  rw [List.cons_append, List.append_assoc, readString_escape (hescape _), hfailure]
  exact ⟨failure, rfl⟩

/-- An escape that cannot be read is refused. -/
theorem refused_of_escape
    (h : ∀ rest, ∃ failure, readEscape true (body ++ Ascii.quote :: rest) = .error failure) :
    Refused (Ascii.backslash :: body) := by
  intro rest
  obtain ⟨failure, hfailure⟩ := h rest
  exact ⟨failure, readString_escape_error hfailure⟩

/-- Where the text is wanted, a body that spells none is refused. -/
theorem spells_or_refused (h : StringBody body) : (∃ text, Spells body text) ∨ Refused body := by
  -- A pair takes two escapes at once, so the induction is on the length.
  induction hlength : body.length using Nat.strongRecOn generalizing body with
  | ind length ih =>
      subst hlength
      cases h with
      | nil => exact Or.inl ⟨[], .nil⟩
      | @plain b after hquote hbackslash hcontrol hafter =>
          rcases ih after.length (by simp) hafter rfl with ⟨text, hspells⟩ | hrefused
          · exact Or.inl ⟨_, .plain hquote hbackslash hcontrol hspells⟩
          · exact Or.inr (hrefused.plain hquote hbackslash hcontrol)
      | @short letter b after hletter hafter =>
          have hshorter : after.length < (Ascii.backslash :: letter :: after).length := by
            simp only [List.length_cons]
            omega
          rcases ih after.length hshorter hafter rfl with ⟨text, hspells⟩ | hrefused
          · exact Or.inl ⟨_, .short hletter hspells⟩
          · exact Or.inr (hrefused.escape [letter] fun rest => readEscape_short hletter rest)
      | @long digits after code hdigits hafter =>
          by_cases hlow : IsLow code
          · refine Or.inr (refused_of_escape fun rest => ?_)
            rw [List.cons_append, List.append_assoc, readEscape_low hdigits hlow]
            exact ⟨_, rfl⟩
          · by_cases hhigh : IsHigh code
            · rcases readLowSurrogate_cases code hafter with
                ⟨digits', low, after', hdigits', hlow', hafter', rfl⟩ | hmissing
              · rcases ih after'.length (by simp; omega) hafter' rfl with ⟨text, hspells⟩ | hrefused
                · exact Or.inl ⟨_, .pair hdigits hhigh hdigits' hlow' hspells⟩
                · have hescape := readEscape_pair hdigits hhigh hdigits' hlow'
                  have hback := hrefused.escape (unicodeLetter ::
                    (digits ++ Ascii.backslash :: unicodeLetter :: digits')) fun rest => by
                      simpa using hescape rest
                  refine Or.inr ?_
                  simpa using hback
              · refine Or.inr (refused_of_escape fun rest => ?_)
                obtain ⟨failure, hfailure⟩ := hmissing rest
                rw [List.cons_append, List.append_assoc, readEscape_high hdigits hhigh]
                exact ⟨failure, hfailure⟩
            · rcases ih after.length (by simp; omega) hafter rfl with ⟨text, hspells⟩ | hrefused
              · exact Or.inl ⟨_, .long hdigits hhigh hlow hspells⟩
              · exact Or.inr (hrefused.escape (unicodeLetter :: digits)
                  fun rest => readEscape_single hdigits hhigh hlow rest)

end AccessControl.Json
