import AccessControl.Json.Number

/-!
Values that are not wanted. Their form is checked and nothing is kept: strings may hold surrogates
without a partner, and numbers may have any size. Open lists and objects are kept on a stack of
frames, so that nesting may be of any depth.
-/

namespace AccessControl.Json

/-- An open list or object. -/
inductive Frame
  | list
  | object
  deriving DecidableEq

/-- The fault of an end within a frame. -/
def Frame.ended : Frame → Fault
  | list => .endInList
  | object => .endInObject

/-- The byte that closes a frame. -/
def Frame.close : Frame → UInt8
  | list => Ascii.closeBracket
  | object => Ascii.closeBrace

/-- The fault of a byte behind a value that neither goes on nor closes the frame. -/
def Frame.expectedComma : Frame → Fault
  | list => .expectedCommaOrBracket
  | object => .expectedCommaOrBrace

/-- A value without parts, of which the first byte is not blank. -/
def skipScalar : Bytes → Except Failure Bytes
  | [] => .error ⟨.endInValue, []⟩
  | b :: rest =>
    if b = Ascii.quote then
      match readString false rest with
      | .error failure => .error failure
      | .ok (_, rest) => .ok rest
    else if beginsNumber b then
      match readNumeral .invalidNumber (b :: rest) with
      | .error failure => .error failure
      | .ok (_, rest) => .ok rest
    else match word? b with
      | some (letters, _) => readWord letters rest
      | none => .error (.atNext .expectedValue (b :: rest))

/-- The colon between a key and its value. -/
def readColon (bytes : Bytes) : Except Failure Bytes :=
  match skipBlanks bytes with
  | [] => .error ⟨.endInObject, []⟩
  | b :: rest => if b = Ascii.colon then .ok rest else .error (.atNext .expectedColon (b :: rest))

/-- The key of an unwanted member, with its colon. -/
def skipKey (bytes : Bytes) : Except Failure Bytes :=
  match skipBlanks bytes with
  | [] => .error ⟨.endInObject, []⟩
  | b :: rest =>
    if b = Ascii.quote then
      match readString false rest with
      | .error failure => .error failure
      | .ok (_, rest) => readColon rest
    else .error (.atNext .keyMustBeString (b :: rest))

theorem length_skipScalar_lt {bytes rest : Bytes} (h : skipScalar bytes = .ok rest) :
    rest.length < bytes.length := by
  unfold skipScalar at h
  split at h
  · cases h
  · split at h
    · split at h
      · cases h
      · rename_i hstring
        cases h
        exact Nat.lt_succ_of_lt (length_readString_lt hstring)
    · split at h
      · split at h
        · cases h
        · rename_i hnumeral
          cases h
          exact length_readNumeral_lt hnumeral
      · split at h
        · exact Nat.lt_succ_of_le (length_readWord_le h)
        · cases h

theorem length_readColon_lt {bytes rest : Bytes} (h : readColon bytes = .ok rest) :
    rest.length < bytes.length := by
  unfold readColon at h
  split at h
  · cases h
  · rename_i hblanks
    split at h
    · cases h
      exact length_lt_of_skipBlanks_eq hblanks
    · cases h

theorem length_skipKey_lt {bytes rest : Bytes} (h : skipKey bytes = .ok rest) :
    rest.length < bytes.length := by
  unfold skipKey at h
  split at h
  · cases h
  · rename_i hblanks
    split at h
    · split at h
      · cases h
      · rename_i hstring
        have := length_lt_of_skipBlanks_eq hblanks
        have := length_readString_lt hstring
        have := length_readColon_lt h
        omega
    · cases h

mutual

/-- A value, and then whatever the open frames still ask for. -/
def skipValue (frames : List Frame) (bytes : Bytes) : Except Failure Bytes :=
  match hblanks : skipBlanks bytes with
  | [] => .error ⟨.endInValue, []⟩
  | b :: rest =>
    have := length_lt_of_skipBlanks_eq hblanks
    if b = Ascii.openBracket then
      match hopen : skipBlanks rest with
      | [] => .error ⟨.endInList, []⟩
      | c :: inner =>
        have := length_lt_of_skipBlanks_eq hopen
        if c = Ascii.closeBracket then skipFrames frames inner
        else skipValue (.list :: frames) rest
    else if b = Ascii.openBrace then
      match hopen : skipBlanks rest with
      | [] => .error ⟨.endInObject, []⟩
      | c :: inner =>
        have := length_lt_of_skipBlanks_eq hopen
        if c = Ascii.closeBrace then skipFrames frames inner
        else match hkey : skipKey rest with
          | .error failure => .error failure
          | .ok after =>
            have := length_skipKey_lt hkey
            skipValue (.object :: frames) after
    else match hscalar : skipScalar (b :: rest) with
      | .error failure => .error failure
      | .ok after =>
        have : after.length < rest.length + 1 := length_skipScalar_lt hscalar
        skipFrames frames after
termination_by bytes.length
decreasing_by all_goals omega

/-- What the open frames ask for behind a value: more of it, or their ends. -/
def skipFrames (frames : List Frame) (bytes : Bytes) : Except Failure Bytes :=
  match frames with
  | [] => .ok bytes
  | frame :: outer =>
    match hblanks : skipBlanks bytes with
    | [] => .error ⟨frame.ended, []⟩
    | b :: rest =>
      have := length_lt_of_skipBlanks_eq hblanks
      if b = frame.close then skipFrames outer rest
      else if b = Ascii.comma then
        match frame with
        | .list => skipValue (.list :: outer) rest
        | .object =>
          match hkey : skipKey rest with
          | .error failure => .error failure
          | .ok after =>
            have := length_skipKey_lt hkey
            skipValue (.object :: outer) after
      else .error (.atNext frame.expectedComma (b :: rest))
termination_by bytes.length
decreasing_by all_goals omega

end

theorem length_skip (n : Nat) :
    (∀ {frames bytes rest}, bytes.length ≤ n → skipValue frames bytes = .ok rest →
      rest.length < bytes.length) ∧
    (∀ {frames bytes rest}, bytes.length ≤ n → skipFrames frames bytes = .ok rest →
      rest.length ≤ bytes.length) := by
  induction n with
  | zero =>
    refine ⟨fun {frames bytes rest} hn h => ?_, fun {frames bytes rest} hn h => ?_⟩
    · cases List.length_eq_zero_iff.1 (Nat.le_zero.1 hn)
      unfold skipValue at h
      cases h
    · cases List.length_eq_zero_iff.1 (Nat.le_zero.1 hn)
      unfold skipFrames at h
      split at h
      · cases h; exact Nat.le_refl _
      · cases h
  | succ n ih =>
    refine ⟨fun {frames bytes rest} hn h => ?_, fun {frames bytes rest} hn h => ?_⟩
    · unfold skipValue at h
      split at h
      · cases h
      · rename_i b more hblanks
        have hmore := length_lt_of_skipBlanks_eq hblanks
        split at h
        · split at h
          · cases h
          · rename_i c inner hopen
            have hinner := length_lt_of_skipBlanks_eq hopen
            split at h
            · have := ih.2 (by omega) h
              omega
            · have := ih.1 (by omega) h
              omega
        · split at h
          · split at h
            · cases h
            · rename_i c inner hopen
              have hinner := length_lt_of_skipBlanks_eq hopen
              split at h
              · have := ih.2 (by omega) h
                omega
              · split at h
                · cases h
                · rename_i hkey
                  have := length_skipKey_lt hkey
                  have := ih.1 (by omega) h
                  omega
          · split at h
            · cases h
            · rename_i after hscalar
              have hafter : after.length < more.length + 1 := length_skipScalar_lt hscalar
              have := ih.2 (by omega) h
              omega
    · unfold skipFrames at h
      split at h
      · cases h; exact Nat.le_refl _
      · split at h
        · cases h
        · rename_i b more hblanks
          have hmore := length_lt_of_skipBlanks_eq hblanks
          split at h
          · have := ih.2 (by omega) h
            omega
          · split at h
            · split at h
              · have := ih.1 (by omega) h
                omega
              · split at h
                · cases h
                · rename_i hkey
                  have := length_skipKey_lt hkey
                  have := ih.1 (by omega) h
                  omega
            · cases h

theorem length_skipValue_lt {frames : List Frame} {bytes rest : Bytes}
    (h : skipValue frames bytes = .ok rest) : rest.length < bytes.length :=
  (length_skip bytes.length).1 (Nat.le_refl _) h

end AccessControl.Json
