import AccessControl.Data.SortedSet
import AccessControl.Grant.Error
import AccessControl.Text.Fields
import AccessControl.Text.Quoted
import AccessControl.Text.Utf8

/-!
The labels that a user may read, and their two stored forms. The current form is a header and the
labels in base64, ascending, with commas between; the form before it has no header and holds the
labels as they are. `encode` writes the current form, `decode` reads both.
-/

namespace AccessControl

/-- A set of labels, none of them empty. -/
structure Authorizations where
  labels : SortedSet Bytes
  nonempty : ∀ label ∈ labels, label ≠ []

namespace Authorizations

instance : DecidableEq Authorizations := fun a b =>
  decidable_of_iff (a.labels = b.labels) (by cases a; cases b; simp)

/-- The set of given labels. -/
def ofLabels (labels : List Bytes) : Except GrantError Authorizations :=
  if h : [] ∈ labels then .error (.invalidLabels .emptyLabel)
  else .ok ⟨SortedSet.ofList labels, fun _ hmem heq => h (heq ▸ SortedSet.mem_ofList.1 hmem)⟩

def contains (a : Authorizations) (label : Bytes) : Bool := a.labels.contains label

/-! ### Writing -/

/-- What marks the current form. -/
def header : Bytes := Utf8.encode "!AUTH1:"

/-- The current form. -/
def encode (a : Authorizations) : Bytes :=
  header ++ Fields.join Ascii.comma (a.labels.toList.map Base64.encode)

/-! ### Reading -/

/-- Whether a byte may stand in a label that is not encoded: letters, digits and `_ - : . /`. -/
def isLabelByte (b : UInt8) : Bool :=
  Ascii.isLetter b || Ascii.isDigit b || b == Ascii.underscore || b == Ascii.minus ||
    b == Ascii.colon || b == Ascii.point || b == Ascii.slash

/-- The label that a field of the current form holds. -/
def encodedLabel (field : Bytes) : Except GrantError Bytes :=
  match Base64.decode field with
  | .ok label => .ok label
  | .error fault => .error (.invalidLabels (.encoding fault))

/-- The label that a field without encoding holds: what is left between blanks. -/
def plainLabel (field : Bytes) : Except GrantError Bytes :=
  match (Ascii.trim field).find? fun b => !isLabelByte b with
  | some b => .error (.invalidLabels (.foreignByte b))
  | none => .ok (Ascii.trim field)

/-- The labels in the fields of a body. Empty fields at its end count for nothing; a fault in any
field is reported before an empty label in another. -/
def ofFields (label : Bytes → Except GrantError Bytes) (body : Bytes) :
    Except GrantError Authorizations := do
  ofLabels (← (Fields.dropTrailingEmpty (Fields.split Ascii.comma body)).mapM label)

/-- The labels of either stored form. -/
def decode (bytes : Bytes) : Except GrantError Authorizations :=
  match header.isPrefixOf? bytes with
  | some body => ofFields encodedLabel body
  | none => ofFields plainLabel bytes

/-! ### Showing -/

/-- The labels as texts, with replacements for what is no text. -/
def texts (a : Authorizations) : List String := a.labels.toList.map Utf8.decodeLossy

/-- The labels with commas between. -/
def display (a : Authorizations) : String := String.intercalate "," a.texts

/-- The labels between quotes, in braces. -/
def describe (a : Authorizations) : String := Quoted.set a.texts

end Authorizations

end AccessControl
