import AccessControl.Json.Number

/-!
The texts that documents are made of.

What may be written is said here without a reader. `Text` derives values, lists and objects, the
objects with their members as they are written; `Padded` puts blanks around. `StringBody` is what may
stand between quotes. Only some of it stands for a text: an escape may give half of a pair of
surrogates, and then there is nothing that `Spells` gives. `NumeralText` is how a number may be
written.
-/

namespace AccessControl.Json

/-! ### Blanks -/

def Blanks (bytes : Bytes) : Prop := ∀ b ∈ bytes, isBlank b = true

theorem Blanks.nil : Blanks [] := fun _ hb => absurd hb List.not_mem_nil

/-- A text with blanks around it. -/
def Padded (text padded : Bytes) : Prop :=
  ∃ before after, Blanks before ∧ Blanks after ∧ padded = before ++ (text ++ after)

theorem Padded.refl (text : Bytes) : Padded text text :=
  ⟨[], [], .nil, .nil, (List.append_nil text).symm⟩

/-- What may follow a value: nothing, a blank, a comma, or the end of a list or an object. -/
def Ends (rest : Bytes) : Prop :=
  ∀ b ∈ rest.head?, isBlank b = true ∨ b = Ascii.comma ∨ b = Ascii.closeBracket ∨
    b = Ascii.closeBrace

theorem Ends.nil : Ends [] := by simp [Ends]

theorem Ends.comma (rest : Bytes) : Ends (Ascii.comma :: rest) := by simp [Ends]

theorem Ends.closeBracket (rest : Bytes) : Ends (Ascii.closeBracket :: rest) := by simp [Ends]

theorem Ends.closeBrace (rest : Bytes) : Ends (Ascii.closeBrace :: rest) := by simp [Ends]

theorem Ends.blanks_append {blanks rest : Bytes} (hblanks : Blanks blanks) (h : Ends rest) :
    Ends (blanks ++ rest) := by
  cases blanks with
  | nil => exact h
  | cons b more =>
      intro c hc
      obtain rfl := Option.some.inj hc
      exact Or.inl (hblanks b List.mem_cons_self)

/-! ### Strings -/

/-- Four hexadecimal digits, with their value. -/
inductive Hex : Bytes → Nat → Prop
  | mk {a b c d : UInt8} {i j k l : Nat} (ha : hexValue? a = some i) (hb : hexValue? b = some j)
      (hc : hexValue? c = some k) (hd : hexValue? d = some l) :
      Hex [a, b, c, d] (((i * 16 + j) * 16 + k) * 16 + l)

/-- What may stand between the quotes of a string. -/
inductive StringBody : Bytes → Prop
  | nil : StringBody []
  | plain {b : UInt8} {body : Bytes} (hquote : b ≠ Ascii.quote) (hbackslash : b ≠ Ascii.backslash)
      (hcontrol : ¬ b < Ascii.space) (h : StringBody body) : StringBody (b :: body)
  | short {letter b : UInt8} {body : Bytes} (hletter : shortEscape? letter = some b)
      (h : StringBody body) : StringBody (Ascii.backslash :: letter :: body)
  | long {digits body : Bytes} {code : Nat} (hdigits : Hex digits code) (h : StringBody body) :
      StringBody (Ascii.backslash :: unicodeLetter :: (digits ++ body))

/-- The first half of a pair of surrogates. -/
def IsHigh (code : Nat) : Prop := 0xD800 ≤ code ∧ code ≤ 0xDBFF

/-- The second half of a pair of surrogates. -/
def IsLow (code : Nat) : Prop := 0xDC00 ≤ code ∧ code ≤ 0xDFFF

/-- What stands between quotes, with the text it stands for. Surrogates come in pairs. -/
inductive Spells : Bytes → Bytes → Prop
  | nil : Spells [] []
  | plain {b : UInt8} {body text : Bytes} (hquote : b ≠ Ascii.quote)
      (hbackslash : b ≠ Ascii.backslash) (hcontrol : ¬ b < Ascii.space) (h : Spells body text) :
      Spells (b :: body) (b :: text)
  | short {letter b : UInt8} {body text : Bytes} (hletter : shortEscape? letter = some b)
      (h : Spells body text) : Spells (Ascii.backslash :: letter :: body) (b :: text)
  | long {digits body text : Bytes} {code : Nat} (hdigits : Hex digits code) (hhigh : ¬ IsHigh code)
      (hlow : ¬ IsLow code) (h : Spells body text) :
      Spells (Ascii.backslash :: unicodeLetter :: (digits ++ body)) (codeText code ++ text)
  | pair {digits digits' body text : Bytes} {high low : Nat} (hdigits : Hex digits high)
      (hhigh : IsHigh high) (hdigits' : Hex digits' low) (hlow : IsLow low) (h : Spells body text) :
      Spells (Ascii.backslash :: unicodeLetter ::
          (digits ++ Ascii.backslash :: unicodeLetter :: (digits' ++ body)))
        (codeText (pairedCode high low) ++ text)

/-- What stands for a text may stand between quotes. -/
theorem Spells.stringBody {body text : Bytes} (h : Spells body text) : StringBody body := by
  induction h with
  | nil => exact .nil
  | plain hquote hbackslash hcontrol _ ih => exact .plain hquote hbackslash hcontrol ih
  | short hletter _ ih => exact .short hletter ih
  | long hdigits _ _ _ ih => exact .long hdigits ih
  | pair hdigits _ hdigits' _ _ ih => exact .long hdigits (.long hdigits' ih)

/-! ### Numbers -/

/-- One decimal digit or more. -/
def Digits (digits : Bytes) : Prop := digits ≠ [] ∧ ∀ b ∈ digits, Ascii.isDigit b = true

/-- The digits of a whole number. A zero stands alone. -/
def WholeDigits (digits : Bytes) : Prop :=
  Digits digits ∧ (digits.head? = some Ascii.zero → digits = [Ascii.zero])

/-- The digits behind a point, as they are written. -/
inductive FractionText : Option Bytes → Bytes → Prop
  | none : FractionText none []
  | some {digits : Bytes} (h : Digits digits) : FractionText (some digits) (Ascii.point :: digits)

/-- The sign in front of an exponent, which may be left out if it is no minus. -/
inductive SignText : Bool → Bytes → Prop
  | none : SignText false []
  | plus : SignText false [Ascii.plus]
  | minus : SignText true [Ascii.minus]

/-- An exponent, as it is written. -/
inductive ExponentText : Option (Bool × Bytes) → Bytes → Prop
  | none : ExponentText none []
  | some {letter : UInt8} {negative : Bool} {sign digits : Bytes}
      (hletter : letter = 0x65 ∨ letter = 0x45) (hsign : SignText negative sign)
      (h : Digits digits) : ExponentText (some (negative, digits)) (letter :: (sign ++ digits))

/-- A number, as it is written. -/
inductive NumeralText : Numeral → Bytes → Prop
  | mk {negative : Bool} {whole fractionText exponentText : Bytes} {fraction : Option Bytes}
      {exponent : Option (Bool × Bytes)} (hwhole : WholeDigits whole)
      (hfraction : FractionText fraction fractionText)
      (hexponent : ExponentText exponent exponentText) :
      NumeralText ⟨negative, whole, fraction, exponent⟩
        ((if negative then [Ascii.minus] else []) ++ (whole ++ (fractionText ++ exponentText)))

/-! ### Values -/

/-- A member of an object: what stands between the quotes of its name, and its value. -/
structure Member where
  name : Bytes
  value : Bytes

/-- A member as it is written, with blanks around its name and its value. -/
def Member.Written (m : Member) (text : Bytes) : Prop :=
  ∃ before between padded, Blanks before ∧ Blanks between ∧ Padded m.value padded ∧
    text = before ++ Ascii.quote :: (m.name ++ Ascii.quote :: (between ++ Ascii.colon :: padded))

/-- What a text may be: a value, what stands between the brackets of a list, an object, or what
stands between the braces of one. -/
inductive Form
  | value
  | elements
  | object (members : List Member)
  | members (members : List Member)

/-- What may be written. -/
inductive Text : Form → Bytes → Prop
  | word {first : UInt8} {letters : Bytes} {found : Found}
      (h : word? first = some (letters, found)) : Text .value (first :: letters)
  | string {body : Bytes} (h : StringBody body) :
      Text .value (Ascii.quote :: (body ++ [Ascii.quote]))
  | number {numeral : Numeral} {text : Bytes} (h : NumeralText numeral text) : Text .value text
  | emptyList {blanks : Bytes} (h : Blanks blanks) :
      Text .value (Ascii.openBracket :: (blanks ++ [Ascii.closeBracket]))
  | list {text : Bytes} (h : Text .elements text) :
      Text .value (Ascii.openBracket :: (text ++ [Ascii.closeBracket]))
  | object {members : List Member} {text : Bytes} (h : Text (.object members) text) :
      Text .value text
  | emptyObject {blanks : Bytes} (h : Blanks blanks) :
      Text (.object []) (Ascii.openBrace :: (blanks ++ [Ascii.closeBrace]))
  | members {members : List Member} {text : Bytes} (h : Text (.members members) text) :
      Text (.object members) (Ascii.openBrace :: (text ++ [Ascii.closeBrace]))
  | lastElement {value text : Bytes} (h : Text .value value) (htext : Padded value text) :
      Text .elements text
  | moreElements {value text rest : Bytes} (h : Text .value value) (htext : Padded value text)
      (hrest : Text .elements rest) : Text .elements (text ++ Ascii.comma :: rest)
  | lastMember {m : Member} {text : Bytes} (hname : StringBody m.name) (h : Text .value m.value)
      (htext : m.Written text) : Text (.members [m]) text
  | moreMembers {m : Member} {members : List Member} {text rest : Bytes}
      (hname : StringBody m.name) (h : Text .value m.value) (htext : m.Written text)
      (hrest : Text (.members members) rest) :
      Text (.members (m :: members)) (text ++ Ascii.comma :: rest)

/-- A document that is an object with the given members. -/
def ObjectText (members : List Member) (document : Bytes) : Prop :=
  ∃ text, Text (.object members) text ∧ Padded text document

/-! ### The first byte of a value -/

theorem WholeDigits.eq_cons {digits : Bytes} (h : WholeDigits digits) :
    ∃ b more, digits = b :: more ∧ Ascii.isDigit b = true := by
  obtain ⟨⟨hne, hdigits⟩, -⟩ := h
  obtain ⟨b, more, rfl⟩ := List.exists_cons_of_ne_nil hne
  exact ⟨b, more, rfl, hdigits b List.mem_cons_self⟩

/-- A number begins with a minus or a digit. -/
theorem NumeralText.eq_cons {numeral : Numeral} {text : Bytes} (h : NumeralText numeral text) :
    ∃ b more, text = b :: more ∧ beginsNumber b = true := by
  cases h with
  | @mk negative whole fractionText exponentText fraction exponent hwhole _ _ =>
      cases negative with
      | true => exact ⟨Ascii.minus, _, rfl, rfl⟩
      | false =>
          obtain ⟨b, more, rfl, hdigit⟩ := hwhole.eq_cons
          exact ⟨b, _, rfl, by simp [beginsNumber, hdigit]⟩

/-- A word begins as nothing else does. -/
theorem word?_first {first : UInt8} {letters : Bytes} {found : Found}
    (h : word? first = some (letters, found)) :
    isBlank first = false ∧ beginsNumber first = false ∧ first ≠ Ascii.quote ∧
      first ≠ Ascii.openBracket ∧ first ≠ Ascii.closeBracket ∧ first ≠ Ascii.openBrace := by
  have hfirst : first = 0x6E ∨ first = 0x74 ∨ first = 0x66 := by
    unfold word? at h
    split at h
    · exact Or.inl ‹_›
    · split at h
      · exact Or.inr (Or.inl ‹_›)
      · split at h
        · exact Or.inr (Or.inr ‹_›)
        · cases h
  rcases hfirst with rfl | rfl | rfl <;> decide

theorem beginsNumber_ne {b c : UInt8} (h : beginsNumber b = true) (hc : beginsNumber c = false) :
    b ≠ c := by
  rintro rfl
  rw [h] at hc
  cases hc

theorem isBlank_of_beginsNumber {b : UInt8} (h : beginsNumber b = true) : isBlank b = false := by
  rw [← Bool.not_eq_true]
  intro hblank
  simp only [isBlank, Bool.or_eq_true, beq_iff_eq] at hblank
  rcases hblank with ((rfl | rfl) | rfl) | rfl <;> cases h

/-- Every value begins with a byte that neither is blank nor ends a list. -/
theorem Text.eq_cons {text : Bytes} (h : Text .value text) :
    ∃ b more, text = b :: more ∧ isBlank b = false ∧ b ≠ Ascii.closeBracket := by
  have hopen : Ascii.quote ≠ Ascii.closeBracket ∧ Ascii.openBracket ≠ Ascii.closeBracket ∧
      Ascii.openBrace ≠ Ascii.closeBracket := by
    decide
  cases h with
  | word hword =>
      obtain ⟨hblank, -, -, -, hclose, -⟩ := word?_first hword
      exact ⟨_, _, rfl, hblank, hclose⟩
  | string => exact ⟨_, _, rfl, rfl, hopen.1⟩
  | number hnumeral =>
      obtain ⟨b, more, rfl, hbegins⟩ := hnumeral.eq_cons
      exact ⟨b, more, rfl, isBlank_of_beginsNumber hbegins, beginsNumber_ne hbegins rfl⟩
  | emptyList => exact ⟨_, _, rfl, rfl, hopen.2.1⟩
  | list => exact ⟨_, _, rfl, rfl, hopen.2.1⟩
  | object hobject =>
      cases hobject with
      | emptyObject => exact ⟨_, _, rfl, rfl, hopen.2.2⟩
      | members => exact ⟨_, _, rfl, rfl, hopen.2.2⟩

end AccessControl.Json
