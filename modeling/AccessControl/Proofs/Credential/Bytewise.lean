import AccessControl.Proofs.Credential.Header
import AccessControl.Proofs.Text.Slices

/-!
The header of a text, read byte by byte.

This reader counts bytes and cuts the text at the places it has counted. Each cut is checked, so a
cut that leaves the text or goes through a character would be its answer (`Utf8.Miscut`).

Main statement: `parse_eq`. No cut goes wrong, and what is read is what `Header.parse` reads
character by character: everything the reader looks for is ASCII, and so is every place where it
cuts.
-/

namespace AccessControl.Header.Bytewise

open ShaCrypt (Algorithm)
open Utf8 (Miscut slice encode)

/-! ### The reader -/

/-- The byte of a dollar. -/
def dollar : UInt8 := 0x24

/-- Whether a byte may stand in a salt. -/
def isSaltByte (b : UInt8) : Bool := (encode (String.ofList ShaCrypt.alphabet)).elem b

/-- What follows a text at the front of another, if it stands there. -/
def strip? (front text : String) : Except Miscut (Option String) :=
  if (encode front).isPrefixOf (encode text) then
    (slice text (encode front).length (encode text).length).map some
  else .ok none

/-- The tag that is reported of a text with another one. -/
def foreignTag (text : String) : Except Miscut String := do
  match ← strip? "$" text with
  | none => return "<untagged>"
  | some rest =>
    let place := ((encode rest).takeWhile (· != dollar)).length
    if place < (encode rest).length then return "$" ++ (← slice rest 0 place) ++ "$"
    else return "<untagged>"

/-- The algorithm of a text, and what follows its tag. -/
def readTag (text : String) : Except Miscut (Except HashError (Algorithm × String)) := do
  match ← strip? (tag .sha512) text with
  | some rest => return .ok (.sha512, rest)
  | none =>
    match ← strip? (tag .sha256) text with
    | some rest => return .ok (.sha256, rest)
    | none => return .error (.unsupported (← foreignTag text))

/-- The number that is written in digits. -/
def number (digits : Bytes) : Nat :=
  digits.foldl (fun value b => 10 * value + Ascii.digitValue b) 0

/-- The number of a rounds field and what follows the field, if the text begins with one. -/
def readRounds (text : String) :
    Except Miscut (Except HashError (Option (Nat × String))) := do
  match ← strip? roundsField text with
  | none => return .ok none
  | some after =>
    let place := ((encode after).takeWhile Ascii.isDigit).length
    if place = 0 ∨ (encode after)[place]? ≠ some dollar then return .ok none
    else
      let digits ← slice after 0 place
      if number (encode digits) ≤ maxWrittenRounds then
        let rest ← slice after (place + 1) (encode after).length
        return .ok (some (clampRounds (number (encode digits)), rest))
      else return .error (.malformed ("rounds out of range: " ++ digits))

/-- The salt at the front of a text. -/
def readSalt (text : String) : Except HashError String :=
  match ((encode text).takeWhile isSaltByte).take ShaCrypt.saltMax with
  | [] => .error (.malformed "missing salt")
  | salt => .ok (String.ofList (salt.map fun b => Char.ofNat b.toNat))

/-- The header at the front of a text. -/
def parse (text : String) : Except Miscut (Except HashError Header) := do
  match ← readTag text with
  | .error error => return .error error
  | .ok (algorithm, rest) =>
    match ← readRounds rest with
    | .error error => return .error error
    | .ok (some (rounds, rest)) =>
      return (readSalt rest).map fun salt => ⟨algorithm, rounds, true, salt⟩
    | .ok none => return (readSalt rest).map fun salt => ⟨algorithm, defaultRounds, false, salt⟩

/-! ### What is judged byte by byte -/

theorem ascii_of_all {text : List Char} (h : (text.all fun c => c.toNat < 0x80) = true) :
    ∀ c ∈ text, c.toNat < 0x80 := by
  intro c hc
  exact of_decide_eq_true (List.all_eq_true.mp h c hc)

theorem ascii_of_isDigit {c : Char} (h : c.isDigit = true) : c.toNat < 0x80 := by
  simp only [Char.isDigit, Bool.and_eq_true, decide_eq_true_eq, UInt32.le_iff_toNat_le] at h
  have hle : c.toNat ≤ 57 := h.2
  omega

theorem ascii_of_mem_alphabet : ∀ c ∈ ShaCrypt.alphabet, c.toNat < 0x80 :=
  ascii_of_all (by decide +kernel)

theorem ascii_of_isSaltChar {c : Char} (h : isSaltChar c = true) : c.toNat < 0x80 :=
  ascii_of_mem_alphabet c (List.elem_iff.mp h)

theorem judges_isDigit : Utf8.Judges Ascii.isDigit Char.isDigit := by
  apply Utf8.judges_of_ascii
  · decide +kernel
  · intro b hb
    have hhigh : ¬ b.toNat ≤ 0x39 := by omega
    simp [Ascii.isDigit, UInt8.le_iff_toNat_le, hhigh]
  · intro c hc
    exact ascii_of_isDigit hc

theorem judges_isSaltByte : Utf8.Judges isSaltByte isSaltChar :=
  Utf8.judges_elem ascii_of_mem_alphabet

/-! ### What is read -/

/-- What stands at the front is cut off where it ends. -/
theorem strip?_eq {front : String} (hascii : ∀ c ∈ front.toList, c.toNat < 0x80)
    (text : List Char) :
    strip? front (String.ofList text) =
      .ok ((front.toList.isPrefixOf? text).map String.ofList) := by
  have hfound := Utf8.isPrefixOf_encode hascii text
  rw [String.ofList_toList] at hfound
  unfold strip?
  cases hrest : front.toList.isPrefixOf? text with
  | none =>
      have hnot : ¬ front.toList.isPrefixOf text = true := by
        intro hfront
        obtain ⟨rest, hback⟩ := List.isPrefixOf_iff_prefix.mp hfront
        rw [isPrefixOf?_eq_some_iff.mpr hback.symm] at hrest
        cases hrest
      rw [hfound, if_neg hnot]
      rfl
  | some rest =>
      have htext := isPrefixOf?_eq_some_iff.mp hrest
      have hfront : front.toList.isPrefixOf text = true :=
        List.isPrefixOf_iff_prefix.mpr ⟨rest, htext.symm⟩
      have hsplit : String.ofList text = front ++ String.ofList rest ++ "" := by
        rw [htext, String.ofList_append, String.ofList_toList, String.append_empty]
      have hlength : (encode (String.ofList text)).length =
          (encode front).length + (encode (String.ofList rest)).length := by
        rw [hsplit, String.append_empty, Utf8.encode_append, List.length_append]
      rw [hfound, if_pos hfront, hlength, hsplit, Utf8.slice_append]
      rfl

/-- The part of a text in front of the place where a run of characters of a kind ends. -/
theorem slice_run {p : UInt8 → Bool} {q : Char → Bool} (h : Utf8.Judges p q)
    (text : List Char) :
    slice (String.ofList text) 0 ((encode (String.ofList text)).takeWhile p).length =
      .ok (String.ofList (text.takeWhile q)) := by
  have hsplit : String.ofList text =
      "" ++ String.ofList (text.takeWhile q) ++ String.ofList (text.dropWhile q) := by
    rw [String.empty_append]
    exact Utf8.ofList_run q text
  have hslice := Utf8.slice_append "" (String.ofList (text.takeWhile q))
    (String.ofList (text.dropWhile q))
  rw [show encode "" = [] from rfl, List.length_nil, Nat.zero_add, ← hsplit] at hslice
  rw [Utf8.takeWhile_encode h, hslice]

/-- A run ends before the text does where a character of another kind follows it. -/
theorem length_run_lt_iff {p : UInt8 → Bool} {q : Char → Bool} (h : Utf8.Judges p q)
    (text : List Char) :
    ((encode (String.ofList text)).takeWhile p).length < (encode (String.ofList text)).length ↔
      text.dropWhile q ≠ [] := by
  rw [Utf8.takeWhile_encode h, Utf8.encode_ofList_run q text, List.length_append,
    Nat.lt_add_right_iff_pos, List.length_pos_iff, ne_eq, Utf8.encode_ofList_eq_nil_iff]

theorem judges_not_dollar : Utf8.Judges (· != dollar) (· != '$') :=
  (Utf8.judges_beq (c := '$') (by decide)).not

theorem foreignTag_eq (text : List Char) :
    foreignTag (String.ofList text) = .ok (Header.foreignTag text) := by
  unfold foreignTag
  rw [strip?_eq (ascii_of_all rfl)]
  cases hrest : "$".toList.isPrefixOf? text with
  | none =>
      have huntagged : Header.foreignTag text = "<untagged>" := by
        unfold Header.foreignTag
        split
        · rename_i rest
          have hsome : "$".toList.isPrefixOf? ('$' :: rest) = some rest :=
            isPrefixOf?_eq_some_iff.mpr rfl
          rw [hsome] at hrest
          cases hrest
        · rfl
      rw [huntagged]
      rfl
  | some rest =>
      obtain rfl : text = '$' :: rest := isPrefixOf?_eq_some_iff.mp hrest
      have hend := length_run_lt_iff judges_not_dollar rest
      have hslice := slice_run judges_not_dollar rest
      have helem : rest.elem '$' = true ↔ rest.dropWhile (· != '$') ≠ [] := by
        simp [List.dropWhile_eq_nil_iff]
      simp only [Option.map_some, bind, Except.bind, pure, Except.pure, Header.foreignTag, hslice]
      by_cases hdollar : rest.elem '$' = true
      · rw [if_pos hdollar, if_pos (hend.mpr (helem.mp hdollar))]
        refine congrArg Except.ok (String.toList_inj.mp ?_)
        simp
      · rw [if_neg hdollar, if_neg fun hlt => hdollar (helem.mpr (hend.mp hlt))]

theorem readTag_eq (text : List Char) :
    readTag (String.ofList text) =
      .ok ((Header.readTag text).map fun found => (found.1, String.ofList found.2)) := by
  unfold readTag Header.readTag
  rw [strip?_eq (ascii_of_all rfl)]
  cases (tag .sha512).toList.isPrefixOf? text with
  | some rest => rfl
  | none =>
      simp only [Option.map_none, bind, Except.bind]
      rw [strip?_eq (ascii_of_all rfl)]
      cases (tag .sha256).toList.isPrefixOf? text with
      | some rest => rfl
      | none =>
          simp only [Option.map_none, foreignTag_eq]
          rfl

theorem number_encode {digits : List Char} (h : ∀ c ∈ digits, c.isDigit = true) :
    number (encode (String.ofList digits)) = Nat.ofDigitChars 10 digits 0 := by
  have hascii : ∀ c ∈ digits, c.toNat < 0x80 := fun c hc => ascii_of_isDigit (h c hc)
  have hvalue : ∀ c ∈ digits, Ascii.digitValue (UInt8.ofNat c.toNat) = c.toNat - '0'.toNat := by
    intro c hc
    rw [Ascii.digitValue, Utf8.toNat_ofNat_of_lt (Nat.lt_trans (hascii c hc) (by decide))]
    rfl
  rw [number, Utf8.encode_ofList_of_ascii hascii, List.foldl_map, Nat.ofDigitChars]
  refine List.foldl_ext _ _ 0 fun value c hc => ?_
  rw [hvalue c hc]

theorem readSalt_eq (text : List Char) :
    readSalt (String.ofList text) = Header.readSalt text := by
  have hascii : ∀ c ∈ text.takeWhile isSaltChar, c.toNat < 0x80 := by
    intro c hc
    exact ascii_of_isSaltChar (List.mem_takeWhile_imp hc)
  have hback : ∀ chars : List Char, (∀ c ∈ chars, c ∈ text.takeWhile isSaltChar) →
      (chars.map fun c => UInt8.ofNat c.toNat).map (fun b => Char.ofNat b.toNat) = chars := by
    intro chars hchars
    rw [List.map_map]
    refine (List.map_congr_left fun c hc => ?_).trans (List.map_id chars)
    exact Utf8.ofNat_toNat_ofNat (hascii c (hchars c hc))
  unfold readSalt Header.readSalt
  rw [Utf8.takeWhile_encode judges_isSaltByte, Utf8.encode_ofList_of_ascii hascii, ← List.map_take]
  cases hsalt : (text.takeWhile isSaltChar).take ShaCrypt.saltMax with
  | nil => rfl
  | cons c rest =>
      have hchars := hback (c :: rest) fun d hd => List.mem_of_mem_take (hsalt ▸ hd)
      exact congrArg (fun salt => Except.ok (String.ofList salt)) hchars

/-- The byte behind the digits is a dollar where the character is one. -/
theorem getElem?_run_iff (text : List Char) :
    (encode (String.ofList text))[((encode (String.ofList text)).takeWhile
        Ascii.isDigit).length]? = some dollar ↔
      ∃ rest, text.dropWhile Char.isDigit = '$' :: rest := by
  rw [Utf8.takeWhile_encode judges_isDigit, Utf8.encode_ofList_run Char.isDigit text,
    List.getElem?_append_right (Nat.le_refl _), Nat.sub_self]
  cases text.dropWhile Char.isDigit with
  | nil =>
      rw [Utf8.encode_ofList_nil]
      simp
  | cons c rest =>
      obtain ⟨lead, more, hbytes, -⟩ := Utf8.utf8EncodeChar_eq_cons c
      have hlead : (lead == dollar) = (c == '$') :=
        Utf8.judges_beq (c := '$') (by decide) c lead (hbytes ▸ List.mem_cons_self)
      rw [Utf8.encode_ofList_cons, hbytes]
      rw [Bool.eq_iff_iff, beq_iff_eq, beq_iff_eq] at hlead
      simp [hlead]

/-- What stands behind the dollar that ends the digits. -/
theorem slice_behind {text rest : List Char} (h : text.dropWhile Char.isDigit = '$' :: rest) :
    slice (String.ofList text)
        (((encode (String.ofList text)).takeWhile Ascii.isDigit).length + 1)
        (encode (String.ofList text)).length =
      .ok (String.ofList rest) := by
  have hsplit : String.ofList text =
      String.ofList (text.takeWhile Char.isDigit ++ ['$']) ++ String.ofList rest ++ "" := by
    rw [String.append_empty, ← String.ofList_append, List.append_assoc, List.singleton_append, ← h,
      List.takeWhile_append_dropWhile]
  have hfront : (encode (String.ofList (text.takeWhile Char.isDigit ++ ['$']))).length =
      (encode (String.ofList (text.takeWhile Char.isDigit))).length + 1 := by
    rw [String.ofList_append, Utf8.encode_append, List.length_append]
    rfl
  have hlength := congrArg (fun part => (encode part).length) hsplit
  simp only [String.append_empty, Utf8.encode_append, List.length_append, hfront] at hlength
  have hslice := Utf8.slice_append (String.ofList (text.takeWhile Char.isDigit ++ ['$']))
    (String.ofList rest) ""
  rw [← hsplit, hfront] at hslice
  rw [Utf8.takeWhile_encode judges_isDigit, hlength, hslice]

theorem readRounds_eq (text : List Char) :
    readRounds (String.ofList text) =
      .ok ((Header.readRounds text).map fun field? =>
        field?.map fun field => (field.1, String.ofList field.2)) := by
  unfold readRounds
  rw [strip?_eq (ascii_of_all rfl)]
  cases hafter : roundsField.toList.isPrefixOf? text with
  | none =>
      have hnone : Header.readRounds text = .ok none := by
        unfold Header.readRounds
        rw [hafter]
      rw [hnone]
      rfl
  | some after =>
      have hdollar := getElem?_run_iff after
      have hempty : ((encode (String.ofList after)).takeWhile Ascii.isDigit).length = 0 ↔
          after.takeWhile Char.isDigit = [] := by
        rw [Utf8.takeWhile_encode judges_isDigit, List.length_eq_zero_iff,
          Utf8.encode_ofList_eq_nil_iff]
      have htext := isPrefixOf?_eq_some_iff.mp hafter
      have hdigits : ∀ c ∈ after.takeWhile Char.isDigit, c.isDigit = true := fun c hc =>
        List.mem_takeWhile_imp hc
      simp only [Option.map_some, bind, Except.bind, pure, Except.pure]
      by_cases hfield : after.takeWhile Char.isDigit ≠ [] ∧
          ∃ rest, after.dropWhile Char.isDigit = '$' :: rest
      · obtain ⟨hnonempty, rest, hback⟩ := hfield
        have hhas : HasField text (after.takeWhile Char.isDigit) rest := by
          refine ⟨?_, hnonempty, hdigits⟩
          rw [htext, ← hback, List.takeWhile_append_dropWhile]
        rw [if_neg (by simp [hempty, hnonempty, hdollar, hback])]
        simp only [slice_run judges_isDigit, number_encode hdigits, slice_behind hback]
        by_cases hsmall :
            Nat.ofDigitChars 10 (after.takeWhile Char.isDigit) 0 ≤ maxWrittenRounds
        · rw [if_pos hsmall, readRounds_of_hasField hhas hsmall]
          rfl
        · rw [if_neg hsmall, readRounds_of_overflow hhas (Nat.not_le.mp hsmall)]
          rfl
      · have hnone : Header.readRounds text = .ok none := by
          apply readRounds_of_not_hasField
          intro digits rest hhas
          obtain rfl : after = digits ++ '$' :: rest :=
            List.append_cancel_left (htext.symm.trans hhas.text_eq)
          apply hfield
          rw [hhas.takeWhile_isDigit, hhas.dropWhile_isDigit]
          exact ⟨hhas.nonempty, rest, rfl⟩
        have hskip : ((encode (String.ofList after)).takeWhile Ascii.isDigit).length = 0 ∨
            (encode (String.ofList after))[((encode (String.ofList after)).takeWhile
              Ascii.isDigit).length]? ≠ some dollar := by
          rw [hempty, ne_eq, hdollar]
          exact not_and_or.mp hfield |>.imp_left not_not.mp
        rw [if_pos hskip, hnone]
        rfl

/-- **No cut goes wrong**, and what is read byte by byte is what is read character by character. -/
theorem parse_eq (text : String) : parse text = .ok (Header.parse text) := by
  have htag := readTag_eq text.toList
  rw [String.ofList_toList] at htag
  unfold parse Header.parse
  rw [htag]
  cases Header.readTag text.toList with
  | error error => rfl
  | ok found =>
      obtain ⟨algorithm, rest⟩ := found
      simp only [Except.map, bind, Except.bind, readRounds_eq]
      cases Header.readRounds rest with
      | error error => rfl
      | ok field? =>
          cases field? with
          | none =>
              simp only [Option.map_none, readSalt_eq]
              cases Header.readSalt rest <;> rfl
          | some field =>
              simp only [Option.map_some, readSalt_eq]
              cases Header.readSalt field.2 <;> rfl

end AccessControl.Header.Bytewise
