import AccessControl.Json.Typed

/-!
How a wanted object or list goes on: with its next member or element, or with its end. The fault of
a missing or superfluous comma depends on what is found there.
-/

namespace AccessControl.Json

/-- What comes next in an object or a list, with the bytes behind it. -/
inductive Next
  | more (rest : Bytes)
  | closed (rest : Bytes)

/-- The opening quote of the next key, or the end of the object. -/
def nextMember (first : Bool) (bytes : Bytes) : Except Failure Next :=
  match skipBlanks bytes with
  | [] => .error ⟨.endInObject, []⟩
  | b :: rest =>
    if b = Ascii.closeBrace then .ok (.closed rest)
    else if first then
      if b = Ascii.quote then .ok (.more rest)
      else .error (.atNext .keyMustBeString (b :: rest))
    else if b = Ascii.comma then
      match skipBlanks rest with
      | [] => .error ⟨.endInValue, []⟩
      | c :: rest =>
        if c = Ascii.quote then .ok (.more rest)
        else if c = Ascii.closeBrace then .error (.atNext .trailingComma (c :: rest))
        else .error (.atNext .keyMustBeString (c :: rest))
    else .error (.atNext .expectedCommaOrBrace (b :: rest))

/-- The beginning of the next element, or the end of the list. -/
def nextElement (first : Bool) (bytes : Bytes) : Except Failure Next :=
  match skipBlanks bytes with
  | [] => .error ⟨.endInList, []⟩
  | b :: rest =>
    if b = Ascii.closeBracket then .ok (.closed rest)
    else if first then .ok (.more (b :: rest))
    else if b = Ascii.comma then
      match skipBlanks rest with
      | [] => .error ⟨.endInValue, []⟩
      | c :: rest =>
        if c = Ascii.closeBracket then .error (.atNext .trailingComma (c :: rest))
        else .ok (.more (c :: rest))
    else .error (.atNext .expectedCommaOrBracket (b :: rest))

/-- The end of a list that may hold no more elements. -/
def endList (bytes : Bytes) : Except Failure Bytes :=
  match skipBlanks bytes with
  | [] => .error ⟨.endInList, []⟩
  | b :: rest =>
    if b = Ascii.closeBracket then .ok rest
    else if b = Ascii.comma then
      match skipBlanks rest with
      | [] => .error ⟨.trailingCharacters, []⟩
      | c :: rest =>
        if c = Ascii.closeBracket then .error (.atNext .trailingComma (c :: rest))
        else .error (.atNext .trailingCharacters (c :: rest))
    else .error (.atNext .trailingCharacters (b :: rest))

theorem length_nextMember_lt {first : Bool} {bytes rest : Bytes}
    (h : nextMember first bytes = .ok (.more rest)) : rest.length < bytes.length := by
  unfold nextMember at h
  split at h
  · cases h
  · rename_i b more hblanks
    have hmore := length_lt_of_skipBlanks_eq hblanks
    split at h
    · cases h
    · split at h
      · split at h
        · cases h; exact hmore
        · cases h
      · split at h
        · split at h
          · cases h
          · rename_i c after hcomma
            have hafter := length_lt_of_skipBlanks_eq hcomma
            split at h
            · cases h; omega
            · split at h <;> cases h
        · cases h

end AccessControl.Json
