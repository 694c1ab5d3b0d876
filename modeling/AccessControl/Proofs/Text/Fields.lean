import Mathlib.Data.List.DropRight
import AccessControl.Text.Fields

/-!
Fields and the text that they are joined to.

Fields without separators are split again where they were joined (`split_join`). Dropping empty
fields at the end loses nothing but separators at the end: a text that does not end in one is joined
from the fields that are left (`join_trimmed`); and fields of which the last one is not empty are
joined to such a text (`getLast?_join_ne`), of which nothing is dropped (`trimmed_join`).
-/

namespace AccessControl.Fields

variable {separator : UInt8} {bytes : Bytes} {fields : List Bytes}

/-! ### Splitting and joining -/

theorem split_eq_splitOn (separator : UInt8) (bytes : Bytes) :
    split separator bytes = bytes.splitOn separator := by
  induction bytes with
  | nil => rfl
  | cons b rest ih =>
      unfold split
      rw [ih, List.splitOn_cons_eq_if_modifyHead]
      by_cases hb : b = separator
      · rw [if_pos hb, if_pos (beq_iff_eq.mpr hb)]
      · rw [if_neg hb, if_neg (fun h => hb (beq_iff_eq.mp h))]
        cases hsplit : rest.splitOn separator with
        | nil => exact absurd hsplit (List.splitOn_ne_nil separator rest)
        | cons field fields => rfl

theorem join_eq_intercalate (separator : UInt8) (fields : List Bytes) :
    join separator fields = [separator].intercalate fields := by
  induction fields with
  | nil => rfl
  | cons field rest ih =>
      cases rest with
      | nil => simp [join]
      | cons next more => simp [join, ih, List.intercalate_cons_cons]

/-- Fields without separators are split where they were joined. -/
theorem split_join (hne : fields ≠ []) (h : ∀ field ∈ fields, separator ∉ field) :
    split separator (join separator fields) = fields := by
  rw [split_eq_splitOn, join_eq_intercalate]
  exact List.splitOn_intercalate separator h hne

/-- The last field stands behind the last separator. -/
theorem join_concat (hne : fields ≠ []) (last : Bytes) :
    join separator (fields ++ [last]) = join separator fields ++ separator :: last := by
  induction fields with
  | nil => exact absurd rfl hne
  | cons field rest ih =>
      cases rest with
      | nil => rfl
      | cons next more =>
          have hrest := ih (List.cons_ne_nil next more)
          rw [List.cons_append] at hrest
          simp only [List.cons_append, join, hrest, List.append_assoc]

/-! ### Empty fields at the end -/

theorem dropTrailingEmpty_eq (fields : List Bytes) :
    dropTrailingEmpty fields = fields.rdropWhile List.isEmpty := rfl

theorem dropTrailingEmpty_concat {last : Bytes} (h : last ≠ []) (fields : List Bytes) :
    dropTrailingEmpty (fields ++ [last]) = fields ++ [last] := by
  rw [dropTrailingEmpty_eq]
  refine List.rdropWhile_concat_neg _ _ _ ?_
  simpa using h

/-- Nothing is dropped of fields that are joined, if the last one is not empty. -/
theorem trimmed_join (h : ∀ field ∈ fields, separator ∉ field)
    (hlast : ∀ last ∈ fields.getLast?, last ≠ []) :
    dropTrailingEmpty (split separator (join separator fields)) = fields := by
  induction fields using List.reverseRecOn with
  | nil => rfl
  | append_singleton front last _ =>
      rw [split_join (by simp) h]
      exact dropTrailingEmpty_concat (hlast last List.getLast?_concat) front

/-- Joined fields do not end in a separator, if the last one is not empty. -/
theorem getLast?_join_ne (h : ∀ field ∈ fields, separator ∉ field)
    (hlast : ∀ last ∈ fields.getLast?, last ≠ []) :
    (join separator fields).getLast? ≠ some separator := by
  induction fields using List.reverseRecOn with
  | nil => simp [join]
  | append_singleton front last _ =>
      have hend : (join separator (front ++ [last])).getLast? = last.getLast? := by
        have hne := hlast last List.getLast?_concat
        by_cases hfront : front = []
        · subst hfront
          rfl
        · rw [join_concat hfront, List.getLast?_append_of_ne_nil _ (List.cons_ne_nil _ _),
            List.getLast?_cons_of_ne_nil hne]
      rw [hend]
      intro hmem
      exact h last (by simp) (List.mem_of_getLast? hmem)

/-- A text that does not end in a separator is joined from its fields without the empty ones at the
end. -/
theorem join_trimmed (h : bytes.getLast? ≠ some separator) :
    join separator (dropTrailingEmpty (split separator bytes)) = bytes := by
  have hjoin := join_split separator bytes
  obtain ⟨front, last, hsplit⟩ := List.eq_nil_or_concat'
    (split separator bytes) |>.resolve_left (split_ne_nil separator bytes)
  rw [hsplit] at hjoin ⊢
  by_cases hlast : last = []
  · subst hlast
    by_cases hfront : front = []
    · subst hfront
      rw [← hjoin]
      rfl
    · refine absurd ?_ h
      rw [← hjoin, join_concat hfront, List.getLast?_concat]
  · rw [dropTrailingEmpty_concat hlast, hjoin]

end AccessControl.Fields
