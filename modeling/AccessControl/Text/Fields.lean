import AccessControl.Text.Ascii

/-!
Fields of a byte string between separators. `split` gives one field more than there are
separators, so a byte string without any is one field; `join` puts the fields back together.
-/

namespace AccessControl.Fields

/-- The fields between the separators, empty ones included. -/
def split (separator : UInt8) : Bytes → List Bytes
  | [] => [[]]
  | b :: rest =>
    if b = separator then [] :: split separator rest
    else match split separator rest with
      | [] => [[b]]
      | field :: fields => (b :: field) :: fields

/-- The fields with one separator between each two. -/
def join (separator : UInt8) : List Bytes → Bytes
  | [] => []
  | [field] => field
  | field :: fields => field ++ separator :: join separator fields

/-- The fields without the empty ones at the end. -/
def dropTrailingEmpty (fields : List Bytes) : List Bytes :=
  (fields.reverse.dropWhile List.isEmpty).reverse

theorem split_ne_nil (separator : UInt8) (bytes : Bytes) : split separator bytes ≠ [] := by
  cases bytes with
  | nil => simp [split]
  | cons b rest =>
    unfold split
    split
    · simp
    · split <;> simp

theorem join_split (separator : UInt8) (bytes : Bytes) :
    join separator (split separator bytes) = bytes := by
  induction bytes with
  | nil => rfl
  | cons b rest ih =>
    unfold split
    split
    · rename_i hb
      subst hb
      cases hs : split b rest with
      | nil => exact absurd hs (split_ne_nil b rest)
      | cons field fields => rw [hs] at ih; simp [join, ih]
    · cases hs : split separator rest with
      | nil => exact absurd hs (split_ne_nil separator rest)
      | cons field fields =>
        rw [hs] at ih
        cases fields with
        | nil => simpa [join] using ih
        | cons next more => simpa [join] using ih

end AccessControl.Fields
