import AccessControl.Json.Error

/-!
The smallest parts of a document: blanks, words and strings. A reader gives what it read and the
bytes behind it, or a failure. Each reader comes with a lemma on the length of what it leaves, on
which the larger readers recurse.
-/

namespace AccessControl.Json

/-! ### Blanks -/

/-- Space, tab, newline and carriage return. -/
def isBlank (b : UInt8) : Bool :=
  b == Ascii.space || b == Ascii.tab || b == Ascii.newline || b == Ascii.carriageReturn

def skipBlanks (bytes : Bytes) : Bytes := bytes.dropWhile isBlank

theorem length_skipBlanks_le (bytes : Bytes) : (skipBlanks bytes).length ≤ bytes.length :=
  (List.dropWhile_sublist _).length_le

theorem length_lt_of_skipBlanks_eq {bytes rest : Bytes} {b : UInt8}
    (h : skipBlanks bytes = b :: rest) : rest.length < bytes.length := by
  have := length_skipBlanks_le bytes
  rw [h, List.length_cons] at this
  omega

/-! ### Words -/

/-- The rest of a word whose first letter has been read. -/
def readWord : Bytes → Bytes → Except Failure Bytes
  | [], bytes => .ok bytes
  | _ :: _, [] => .error ⟨.endInValue, []⟩
  | letter :: letters, b :: rest =>
    if b = letter then readWord letters rest else .error ⟨.expectedWord, rest⟩

/-- What follows the first letter of a word of the format, and what the word stands for. -/
def word? (first : UInt8) : Option (Bytes × Found) :=
  if first = 0x6E then some (Utf8.encode "ull", .null)
  else if first = 0x74 then some (Utf8.encode "rue", .bool true)
  else if first = 0x66 then some (Utf8.encode "alse", .bool false)
  else none

theorem length_readWord_le {letters bytes rest : Bytes} (h : readWord letters bytes = .ok rest) :
    rest.length ≤ bytes.length := by
  induction letters generalizing bytes with
  | nil => cases h; exact Nat.le_refl _
  | cons letter letters ih =>
    cases bytes with
    | nil => cases h
    | cons b bytes =>
      unfold readWord at h
      split at h
      · exact Nat.le_succ_of_le (ih h)
      · cases h

/-! ### Strings -/

/-- The byte that a backslash and one letter stand for. -/
def shortEscape? (letter : UInt8) : Option UInt8 :=
  if letter = Ascii.quote || letter = Ascii.backslash || letter = Ascii.slash then some letter
  else if letter = 0x62 then some 0x08
  else if letter = 0x66 then some Ascii.formFeed
  else if letter = 0x6E then some Ascii.newline
  else if letter = 0x72 then some Ascii.carriageReturn
  else if letter = 0x74 then some Ascii.tab
  else none

/-- The value of a hexadecimal digit. -/
def hexValue? (b : UInt8) : Option Nat :=
  if Ascii.isDigit b then some (b.toNat - 0x30)
  else if 0x41 ≤ b && b ≤ 0x46 then some (b.toNat - 0x41 + 10)
  else if 0x61 ≤ b && b ≤ 0x66 then some (b.toNat - 0x61 + 10)
  else none

/-- The letter that begins an escape of four hexadecimal digits. -/
def unicodeLetter : UInt8 := 0x75

/-- Four hexadecimal digits. -/
def readHex : Bytes → Except Failure (Nat × Bytes)
  | a :: b :: c :: d :: rest =>
    match hexValue? a, hexValue? b, hexValue? c, hexValue? d with
    | some a, some b, some c, some d => .ok (((a * 16 + b) * 16 + c) * 16 + d, rest)
    | _, _, _, _ => .error ⟨.invalidEscape, rest⟩
  | _ => .error ⟨.endInString, []⟩

/-- The code point that a pair of surrogates stands for. -/
def pairedCode (high low : Nat) : Nat := (high - 0xD800) * 0x400 + (low - 0xDC00) + 0x10000

/-- The text of one code point. -/
def codeText (code : Nat) : Bytes := Utf8.encode (String.singleton (Char.ofNat code))

/-- The second half of a pair of surrogates, whose first half is given. -/
def readLowSurrogate (high : Nat) : Bytes → Except Failure (Bytes × Bytes)
  | [] => .error ⟨.endInString, []⟩
  | b :: rest =>
    if b ≠ Ascii.backslash then .error ⟨.unfinishedSurrogate, rest⟩
    else match rest with
      | [] => .error ⟨.endInString, []⟩
      | letter :: rest =>
        if letter ≠ unicodeLetter then .error ⟨.unfinishedSurrogate, rest⟩
        else match readHex rest with
          | .error failure => .error failure
          | .ok (low, rest) =>
            if 0xDC00 ≤ low && low ≤ 0xDFFF then
              .ok (codeText (pairedCode high low), rest)
            else .error ⟨.unpairedSurrogate, rest⟩

/-- What follows the letter of a long escape. Where text is wanted, surrogates have to come in
pairs; where it is not, any four digits will do. -/
def readLongEscape (wanted : Bool) (bytes : Bytes) : Except Failure (Bytes × Bytes) :=
  match readHex bytes with
  | .error failure => .error failure
  | .ok (code, rest) =>
    if !wanted then .ok ([], rest)
    else if 0xDC00 ≤ code && code ≤ 0xDFFF then .error ⟨.unpairedSurrogate, rest⟩
    else if 0xD800 ≤ code && code ≤ 0xDBFF then readLowSurrogate code rest
    else .ok (codeText code, rest)

/-- What follows a backslash. -/
def readEscape (wanted : Bool) : Bytes → Except Failure (Bytes × Bytes)
  | [] => .error ⟨.endInString, []⟩
  | letter :: rest =>
    if letter = unicodeLetter then readLongEscape wanted rest
    else match shortEscape? letter with
      | some b => .ok ([b], rest)
      | none => .error ⟨.invalidEscape, rest⟩

theorem length_readHex_lt {bytes rest : Bytes} {code : Nat} (h : readHex bytes = .ok (code, rest)) :
    rest.length < bytes.length := by
  unfold readHex at h
  split at h
  · split at h
    · cases h
      simp only [List.length_cons]
      omega
    · cases h
  · cases h

theorem length_readLowSurrogate_lt {high : Nat} {bytes text rest : Bytes}
    (h : readLowSurrogate high bytes = .ok (text, rest)) : rest.length < bytes.length := by
  match bytes with
  | [] => cases h
  | [b] => simp only [readLowSurrogate] at h; split at h <;> cases h
  | b :: letter :: more =>
    simp only [readLowSurrogate] at h
    split at h
    · cases h
    · split at h
      · cases h
      · split at h
        · cases h
        · rename_i hhex
          split at h
          · simp only [Except.ok.injEq, Prod.mk.injEq] at h
            have := length_readHex_lt hhex
            simp only [List.length_cons, ← h.2]
            omega
          · cases h

theorem length_readLongEscape_lt {wanted : Bool} {bytes text rest : Bytes}
    (h : readLongEscape wanted bytes = .ok (text, rest)) : rest.length < bytes.length := by
  unfold readLongEscape at h
  split at h
  · cases h
  · rename_i code after hhex
    have hafter := length_readHex_lt hhex
    split at h
    · cases h; exact hafter
    · split at h
      · cases h
      · split at h
        · exact Nat.lt_trans (length_readLowSurrogate_lt h) hafter
        · cases h; exact hafter

theorem length_readEscape_lt {wanted : Bool} {bytes text rest : Bytes}
    (h : readEscape wanted bytes = .ok (text, rest)) : rest.length < bytes.length := by
  unfold readEscape at h
  split at h
  · cases h
  · split at h
    · have := length_readLongEscape_lt h
      simp only [List.length_cons]
      omega
    · split at h
      · cases h; exact Nat.lt_succ_self _
      · cases h

/-- The text of a string whose opening quote has been read. A control character counts as read only
where the text is wanted. -/
def readString (wanted : Bool) (bytes : Bytes) : Except Failure (Bytes × Bytes) :=
  match bytes with
  | [] => .error ⟨.endInString, []⟩
  | b :: rest =>
    if b = Ascii.quote then .ok ([], rest)
    else if b = Ascii.backslash then
      match h : readEscape wanted rest with
      | .error failure => .error failure
      | .ok (piece, after) =>
        have := length_readEscape_lt h
        match readString wanted after with
        | .error failure => .error failure
        | .ok (text, after) => .ok (piece ++ text, after)
    else if b < Ascii.space then
      .error ⟨.controlCharacter, if wanted then rest else b :: rest⟩
    else match readString wanted rest with
      | .error failure => .error failure
      | .ok (text, after) => .ok (b :: text, after)
termination_by bytes.length
decreasing_by all_goals simp only [List.length_cons]; omega

theorem length_readString_lt {wanted : Bool} {bytes text rest : Bytes}
    (h : readString wanted bytes = .ok (text, rest)) : rest.length < bytes.length := by
  fun_induction readString wanted bytes generalizing text rest with
  | case1 => cases h
  | case2 => cases h; exact Nat.lt_succ_self _
  | case3 => cases h
  | case4 => cases h
  | case5 _ _ _ _ _ text after hrec _ ih =>
    cases h
    have := ih hrec
    simp only [List.length_cons]
    omega
  | case6 => cases h
  | case7 => cases h
  | case8 b bytes hq hb hc text after hrec ih =>
    cases h
    have := ih hrec
    simp only [List.length_cons]
    omega

end AccessControl.Json
