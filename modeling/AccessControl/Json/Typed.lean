import AccessControl.Json.Skip

/-!
Values of an expected type: unsigned integers of 64 bits. A value of another kind is read as far as
its position is needed and then reported.
-/

namespace AccessControl.Json

/-- The failure on a value of another kind than expected, of which the first byte is not blank. A
value without parts is consumed; a list or an object is not. -/
def mistyped (expected : String) : Bytes → Failure
  | [] => ⟨.endInValue, []⟩
  | b :: rest =>
    if b = Ascii.quote then
      match readString true rest with
      | .error failure => failure
      | .ok (text, rest) => ⟨.mistyped (.text text) expected, rest⟩
    else if beginsNumber b then
      match readNumber (b :: rest) with
      | .error failure => failure
      | .ok (number, rest) => ⟨.mistyped number.found expected, rest⟩
    else if b = Ascii.openBracket then ⟨.mistyped .sequence expected, b :: rest⟩
    else if b = Ascii.openBrace then ⟨.mistyped .map expected, b :: rest⟩
    else match word? b with
      | some (letters, found) =>
        match readWord letters rest with
        | .error failure => failure
        | .ok rest => ⟨.mistyped found expected, rest⟩
      | none => .atNext .expectedValue (b :: rest)

/-! ### Unsigned integers -/

/-- An unsigned integer of 64 bits, for a type of the given name. -/
def readUnsigned (expected : String) (bytes : Bytes) : Except Failure (UInt64 × Bytes) :=
  match skipBlanks bytes with
  | [] => .error ⟨.endInValue, []⟩
  | b :: rest =>
    if beginsNumber b then
      match readNumber (b :: rest) with
      | .error failure => .error failure
      | .ok (.unsigned value, rest) => .ok (UInt64.ofNat value, rest)
      | .ok (.negative magnitude, rest) => .error ⟨.misvalued (.negative magnitude) expected, rest⟩
      | .ok (.float bits, rest) => .error ⟨.mistyped (.float bits) expected, rest⟩
    else .error (mistyped expected (b :: rest))

/-- The letter that a null begins with. -/
def nullLetter : UInt8 := 0x6E

/-- What follows that letter. -/
def nullRest : Bytes := Utf8.encode "ull"

/-- An unsigned integer of 64 bits, or a null. -/
def readUnsigned? (expected : String) (bytes : Bytes) :
    Except Failure (Option UInt64 × Bytes) :=
  match skipBlanks bytes with
  | [] => .error ⟨.endInValue, []⟩
  | b :: rest =>
    if b = nullLetter then
      match readWord nullRest rest with
      | .error failure => .error failure
      | .ok rest => .ok (none, rest)
    else
      match readUnsigned expected (b :: rest) with
      | .error failure => .error failure
      | .ok (value, rest) => .ok (some value, rest)

theorem length_readUnsigned_lt {expected : String} {bytes rest : Bytes} {value : UInt64}
    (h : readUnsigned expected bytes = .ok (value, rest)) : rest.length < bytes.length := by
  unfold readUnsigned at h
  split at h
  · cases h
  · rename_i b more hblanks
    have hmore := length_lt_of_skipBlanks_eq hblanks
    split at h
    · split at h
      · cases h
      · rename_i hnumber
        cases h
        have := length_readNumber_lt hnumber
        simp only [List.length_cons] at this
        omega
      · cases h
      · cases h
    · cases h

theorem length_readUnsigned?_lt {expected : String} {bytes rest : Bytes} {value : Option UInt64}
    (h : readUnsigned? expected bytes = .ok (value, rest)) : rest.length < bytes.length := by
  unfold readUnsigned? at h
  split at h
  · cases h
  · rename_i b more hblanks
    have hmore := length_lt_of_skipBlanks_eq hblanks
    split at h
    · split at h
      · cases h
      · rename_i hword
        cases h
        have := length_readWord_le hword
        omega
    · split at h
      · cases h
      · rename_i hvalue
        cases h
        have := length_readUnsigned_lt hvalue
        simp only [List.length_cons] at this
        omega

/-! ### Whole documents -/

/-- What a reader makes of a document with nothing but blanks behind the value. -/
def readDocument {α : Type} (read : Bytes → Except Failure (α × Bytes)) (document : String) :
    Except Error α :=
  let bytes := Utf8.encode document
  match read bytes with
  | .error failure => .error (failure.locate bytes)
  | .ok (value, rest) =>
    match skipBlanks rest with
    | [] => .ok value
    | rest => .error ((Failure.atNext .trailingCharacters rest).locate bytes)

end AccessControl.Json
