import AccessControl.Json.Sequence

/-!
One of a list of variants: its name as a string, or an object with the name for its only key and
null for the contents.
-/

namespace AccessControl.Json

/-- The variant that a string names; the opening quote has been read. -/
def readVariantName {α : Type} (variants : List (String × α)) (bytes : Bytes) :
    Except Failure (α × Bytes) :=
  match readString true bytes with
  | .error failure => .error failure
  | .ok (name, rest) =>
    match variants.find? fun variant => Utf8.encode variant.1 == name with
    | some variant => .ok (variant.2, rest)
    | none => .error ⟨.unknownVariant name (variants.map (·.1)), rest⟩

/-- The null that a variant without contents has for its contents. -/
def readNoContents (bytes : Bytes) : Except Failure Bytes :=
  match skipBlanks bytes with
  | [] => .error ⟨.endInValue, []⟩
  | b :: rest =>
    if b = nullLetter then readWord nullRest rest
    else .error (mistyped "unit" (b :: rest))

/-- The end of the object of a variant. A byte that goes on with it is not consumed. -/
def endVariant (bytes : Bytes) : Except Failure Bytes :=
  match skipBlanks bytes with
  | [] => .error ⟨.endInObject, []⟩
  | b :: rest => if b = Ascii.closeBrace then .ok rest else .error ⟨.expectedValue, b :: rest⟩

/-- The only member of the object of a variant, and the end of that object. -/
def readVariantObject {α : Type} (variants : List (String × α)) (bytes : Bytes) :
    Except Failure (α × Bytes) := do
  match ← nextMember true bytes with
  | .closed rest => throw ⟨.expectedValue, rest⟩
  | .more rest =>
    let (variant, rest) ← readVariantName variants rest
    let rest ← readNoContents (← readColon rest)
    return (variant, ← endVariant rest)

/-- One of the variants, in either form. -/
def readVariant {α : Type} (variants : List (String × α)) (bytes : Bytes) :
    Except Failure (α × Bytes) :=
  match skipBlanks bytes with
  | [] => .error ⟨.endInValue, []⟩
  | b :: rest =>
    if b = Ascii.openBrace then readVariantObject variants rest
    else if b = Ascii.quote then readVariantName variants rest
    else .error (.atNext .expectedValue (b :: rest))

end AccessControl.Json
