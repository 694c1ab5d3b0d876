import Mathlib.Data.List.GetD
import Mathlib.Data.List.TakeWhile
import AccessControl.Credential.Header
import AccessControl.Proofs.Data.Except

/-!
Reading a header back from its text.

The reader is lenient: it clamps rounds, cuts salts and ignores what follows them. Still, whatever
it reads is a valid header (`valid_of_parse`), and a valid header is read back from every text that
begins with it, as long as the salt ends there (`parse_render_append`).
-/

namespace AccessControl

open ShaCrypt (Algorithm)

namespace Header

/-- A salt that can be read back: one to sixteen characters of the alphabet. -/
structure IsSalt (salt : String) : Prop where
  nonempty : 1 ≤ salt.length
  short : salt.length ≤ ShaCrypt.saltMax
  chars : ∀ c ∈ salt.toList, isSaltChar c = true

instance (salt : String) : Decidable (IsSalt salt) :=
  decidable_of_iff (1 ≤ salt.length ∧ salt.length ≤ ShaCrypt.saltMax ∧
      salt.toList.all isSaltChar = true)
    ⟨fun h => ⟨h.1, h.2.1, List.all_eq_true.mp h.2.2⟩,
      fun h => ⟨h.nonempty, h.short, List.all_eq_true.mpr h.chars⟩⟩

/-- A header that can be read back: rounds in range, written unless they are the default, and a
salt. -/
structure Valid (h : Header) : Prop where
  rounds_ge : minRounds ≤ h.rounds
  rounds_le : h.rounds ≤ maxRounds
  written : h.customRounds = true ∨ h.rounds = defaultRounds
  salt : IsSalt h.salt

/-! ### The range of rounds -/

theorem maxWrittenRounds_eq : maxWrittenRounds = 4294967295 := rfl

theorem clampRounds_eq (rounds : Nat) : clampRounds rounds = max 1000 (min rounds 999999999) := rfl

theorem defaultRounds_inRange : minRounds ≤ defaultRounds ∧ defaultRounds ≤ maxRounds := by
  decide

theorem clampRounds_inRange (rounds : Nat) :
    minRounds ≤ clampRounds rounds ∧ clampRounds rounds ≤ maxRounds := by
  rw [clampRounds_eq, minRounds, maxRounds]
  omega

/-- Rounds in range are left as they are. -/
theorem clampRounds_eq_self {rounds : Nat} (hge : minRounds ≤ rounds) (hle : rounds ≤ maxRounds) :
    clampRounds rounds = rounds := by
  rw [clampRounds, Nat.min_eq_left hle, Nat.max_eq_right hge]

/-- Digests are defined for the rounds that headers are read with and policies ask for, and for no
others. -/
theorem digest_range_iff {rounds : Nat} :
    (ShaCrypt.roundsMin ≤ rounds ∧ rounds ≤ ShaCrypt.roundsMax) ↔
      minRounds ≤ rounds ∧ rounds ≤ maxRounds := Iff.rfl

/-! ### Cutting a text where a kind of character ends -/

section Cutting

variable {p : Char → Bool} {front back : List Char}

theorem takeWhile_append_stop (hfront : ∀ c ∈ front, p c = true)
    (hback : ∀ c ∈ back.head?, p c = false) : (front ++ back).takeWhile p = front := by
  rw [List.takeWhile_append_of_pos hfront]
  cases back with
  | nil => simp
  | cons c rest => simp [hback c rfl]

theorem dropWhile_append_stop (hfront : ∀ c ∈ front, p c = true)
    (hback : ∀ c ∈ back.head?, p c = false) : (front ++ back).dropWhile p = back := by
  rw [List.dropWhile_append_of_pos hfront]
  cases back with
  | nil => simp
  | cons c rest => simp [hback c rfl]

theorem isPrefixOf?_cons (c d : Char) (front back : List Char) :
    (c :: front).isPrefixOf? (d :: back) = if c == d then front.isPrefixOf? back else none := rfl

theorem isPrefixOf?_eq_some_iff {rest : List Char} :
    front.isPrefixOf? back = some rest ↔ back = front ++ rest :=
  List.isPrefixOf?_eq_some_iff_append_eq.trans eq_comm

end Cutting

/-! ### The tag -/

theorem readTag_append (algorithm : Algorithm) (rest : List Char) :
    readTag ((tag algorithm).toList ++ rest) = .ok (algorithm, rest) := by
  cases algorithm with
  | sha256 =>
      have hsha512 : (tag .sha512).toList.isPrefixOf? ((tag .sha256).toList ++ rest) = none := by
        simp [tag, isPrefixOf?_cons]
      have hsha256 : (tag .sha256).toList.isPrefixOf? ((tag .sha256).toList ++ rest) = some rest :=
        isPrefixOf?_eq_some_iff.mpr rfl
      simp only [readTag, hsha512, hsha256]
  | sha512 =>
      have hsha512 : (tag .sha512).toList.isPrefixOf? ((tag .sha512).toList ++ rest) = some rest :=
        isPrefixOf?_eq_some_iff.mpr rfl
      simp only [readTag, hsha512]

/-! ### The rounds -/

/-- A text begins with a rounds field of some digits. -/
structure HasField (text digits rest : List Char) : Prop where
  text_eq : text = roundsField.toList ++ (digits ++ '$' :: rest)
  nonempty : digits ≠ []
  isDigit : ∀ c ∈ digits, c.isDigit = true

variable {text digits rest : List Char}

/-- The digits of a field end at its dollar. -/
theorem HasField.takeWhile_isDigit (h : HasField text digits rest) :
    (digits ++ '$' :: rest).takeWhile Char.isDigit = digits :=
  takeWhile_append_stop h.isDigit (by simp [Char.isDigit])

theorem HasField.dropWhile_isDigit (h : HasField text digits rest) :
    (digits ++ '$' :: rest).dropWhile Char.isDigit = '$' :: rest :=
  dropWhile_append_stop h.isDigit (by simp [Char.isDigit])

theorem readRounds_of_hasField (h : HasField text digits rest)
    (hsmall : Nat.ofDigitChars 10 digits 0 ≤ maxWrittenRounds) :
    readRounds text = .ok (some (clampRounds (Nat.ofDigitChars 10 digits 0), rest)) := by
  have hname : roundsField.toList.isPrefixOf? text = some (digits ++ '$' :: rest) :=
    isPrefixOf?_eq_some_iff.mpr h.text_eq
  unfold readRounds
  simp only [hname, h.takeWhile_isDigit, h.dropWhile_isDigit, List.isEmpty_iff, h.nonempty,
    if_false, if_pos hsmall]

/-- A field whose number is too large is an error, however many zeros stand in front of it. -/
theorem readRounds_of_overflow (h : HasField text digits rest)
    (hlarge : maxWrittenRounds < Nat.ofDigitChars 10 digits 0) :
    readRounds text =
      .error (.malformed ("rounds out of range: " ++ String.ofList digits)) := by
  have hname : roundsField.toList.isPrefixOf? text = some (digits ++ '$' :: rest) :=
    isPrefixOf?_eq_some_iff.mpr h.text_eq
  unfold readRounds
  simp only [hname, h.takeWhile_isDigit, h.dropWhile_isDigit, List.isEmpty_iff, h.nonempty,
    if_false, if_neg (Nat.not_le.mpr hlarge)]
  rfl

/-- Without a field there are no rounds to read, and nothing is wrong with that. -/
theorem readRounds_of_not_hasField (h : ∀ digits rest, ¬ HasField text digits rest) :
    readRounds text = .ok none := by
  unfold readRounds
  split
  · rfl
  · rename_i after hname
    split
    · rename_i rest hdrop
      dsimp only
      split
      · rfl
      · rename_i hnonempty
        refine absurd ⟨?_, ?_, ?_⟩ (h (after.takeWhile Char.isDigit) rest)
        · rw [← hdrop, List.takeWhile_append_dropWhile]
          exact isPrefixOf?_eq_some_iff.mp hname
        · simpa using hnonempty
        · exact fun c hc => List.mem_takeWhile_imp hc
    · rfl

/-- Rounds that are read are in range. -/
theorem clamped_of_readRounds {rounds : Nat}
    (h : readRounds text = .ok (some (rounds, rest))) :
    minRounds ≤ rounds ∧ rounds ≤ maxRounds := by
  unfold readRounds at h
  split at h
  · cases h
  · split at h
    · dsimp only at h
      split at h
      · cases h
      · split at h
        · cases h
          exact clampRounds_inRange _
        · cases h
    · cases h

/-! ### The salt -/

theorem isSaltChar_dollar : isSaltChar '$' = false := by decide +kernel

theorem isSaltChar_equals : isSaltChar '=' = false := by decide +kernel

theorem isSaltChar_alphabet (value : Fin 64) :
    isSaltChar (ShaCrypt.alphabet.getD value '.') = true := by
  have hlt : value.val < ShaCrypt.alphabet.length := value.isLt
  rw [List.getD_eq_getElem _ _ hlt]
  exact List.elem_iff.mpr (List.getElem_mem hlt)

/-- A salt is read whole if a dollar or nothing follows it. -/
theorem readSalt_append {salt : String} (hsalt : IsSalt salt)
    (hrest : ∀ c ∈ rest.head?, c = '$') : readSalt (salt.toList ++ rest) = .ok salt := by
  have hstop : ∀ c ∈ rest.head?, isSaltChar c = false := by
    intro c hc
    rw [hrest c hc]
    exact isSaltChar_dollar
  have htake : salt.toList.take ShaCrypt.saltMax = salt.toList :=
    List.take_of_length_le hsalt.short
  unfold readSalt
  rw [takeWhile_append_stop hsalt.chars hstop, htake]
  split
  · rename_i hnil
    have hnonempty := hsalt.nonempty
    rw [← String.length_toList, hnil] at hnonempty
    cases hnonempty
  · rw [String.ofList_toList]

/-- Whatever is read as a salt is one. -/
theorem isSalt_of_readSalt {salt : String} (h : readSalt text = .ok salt) : IsSalt salt := by
  unfold readSalt at h
  split at h
  · cases h
  · rename_i chars hnonempty
    cases h
    refine ⟨?_, ?_, ?_⟩
    · rw [String.length_ofList]
      exact List.length_pos_iff.mpr hnonempty
    · rw [String.length_ofList]
      exact List.length_take_le _ _
    · intro c hc
      rw [String.toList_ofList] at hc
      exact List.mem_takeWhile_imp (List.mem_of_mem_take hc)

/-- A salt, with a dollar or nothing behind it, does not begin with a rounds field: it has no
equality sign. -/
theorem not_hasField_of_isSalt {salt : String} (hsalt : IsSalt salt)
    (hrest : ∀ c ∈ rest.head?, c = '$') (digits more : List Char) :
    ¬ HasField (salt.toList ++ rest) digits more := by
  intro h
  have hsign : '=' ∉ salt.toList := by
    intro hmem
    have hchar := hsalt.chars '=' hmem
    rw [isSaltChar_equals] at hchar
    cases hchar
  have hname : '=' ∈ roundsField.toList := by decide
  rcases List.append_eq_append_iff.mp h.text_eq with ⟨middle, hfield, hback⟩ | ⟨middle, hfield, -⟩
  · cases middle with
    | nil =>
        rw [List.append_nil] at hfield
        exact hsign (hfield ▸ hname)
    | cons c others =>
        have hdollar : c = '$' := hrest c (by rw [hback]; rfl)
        have hmem : '$' ∈ roundsField.toList := by
          rw [hfield, hdollar]
          simp
        revert hmem
        decide
  · refine hsign ?_
    rw [hfield]
    exact List.mem_append_left middle hname

/-! ### The header -/

variable {h : Header}

/-- Whatever is read as a header is valid. -/
theorem valid_of_parse {text : String} (hparse : parse text = .ok h) : h.Valid := by
  unfold parse at hparse
  obtain ⟨⟨algorithm, afterTag⟩, -, hparse⟩ := bind_eq_ok.mp hparse
  obtain ⟨rounds?, hrounds, hparse⟩ := bind_eq_ok.mp hparse
  cases rounds? with
  | none =>
      obtain ⟨salt, hsalt, hparse⟩ := bind_eq_ok.mp hparse
      cases hparse
      exact ⟨defaultRounds_inRange.1, defaultRounds_inRange.2, Or.inr rfl,
        isSalt_of_readSalt hsalt⟩
  | some field =>
      obtain ⟨salt, hsalt, hparse⟩ := bind_eq_ok.mp hparse
      cases hparse
      obtain ⟨hge, hle⟩ := clamped_of_readRounds hrounds
      exact ⟨hge, hle, Or.inl rfl, isSalt_of_readSalt hsalt⟩

/-- The digits that a number is written in are those of a field, and say the number. -/
theorem hasField_toString (n : Nat) (rest : List Char) :
    HasField (roundsField.toList ++ ((toString n).toList ++ '$' :: rest)) (toString n).toList
      rest := by
  rw [Nat.toString_eq_repr, Nat.toList_repr]
  refine ⟨rfl, Nat.toDigits_ne_nil, fun c hc => ?_⟩
  exact Nat.isDigit_of_mem_toDigits (by decide) (by decide) hc

/-- **A valid header is read back** from the text that begins with it, whatever stands behind the
dollar that ends the salt. -/
theorem parse_render_append (hvalid : h.Valid) {rest : String}
    (hrest : ∀ c ∈ rest.toList.head?, c = '$') : parse (h.render ++ rest) = .ok h := by
  obtain ⟨algorithm, rounds, customRounds, salt⟩ := h
  have hsalt := readSalt_append hvalid.salt hrest
  cases customRounds with
  | true =>
      have htext : (render ⟨algorithm, rounds, true, salt⟩ ++ rest).toList =
          (tag algorithm).toList ++ (roundsField.toList ++
            ((toString rounds).toList ++ '$' :: (salt.toList ++ rest.toList))) := by
        simp [render]
      have hle : rounds ≤ maxRounds := hvalid.rounds_le
      have hge : minRounds ≤ rounds := hvalid.rounds_ge
      have hnumber : Nat.ofDigitChars 10 (toString rounds).toList 0 = rounds := by simp
      have hclamp : clampRounds rounds = rounds := clampRounds_eq_self hge hle
      have hrounds := readRounds_of_hasField (hasField_toString rounds (salt.toList ++ rest.toList))
        (hnumber.symm ▸ Nat.le_trans hle (by decide))
      rw [parse, htext, readTag_append]
      simp only [bind, Except.bind, pure, Except.pure, hrounds, hsalt, hnumber, hclamp]
  | false =>
      have htext : (render ⟨algorithm, rounds, false, salt⟩ ++ rest).toList =
          (tag algorithm).toList ++ (salt.toList ++ rest.toList) := by
        simp [render]
      have hdefault : rounds = defaultRounds := by
        rcases hvalid.written with hcustom | hdefault
        · cases hcustom
        · exact hdefault
      have hrounds := readRounds_of_not_hasField (not_hasField_of_isSalt hvalid.salt hrest)
      rw [parse, htext, readTag_append]
      simp only [bind, Except.bind, pure, Except.pure, hrounds, hsalt, hdefault]

end Header

end AccessControl
