import AccessControl.Proofs.Text.Fields

/-!
What is left of a byte string when something is cut off its ends.

`Fields.Cut` is how a byte string falls into fields when empty ones at its end count for nothing,
and `Ascii.Trims` is what a field holds between blanks. Neither says how it is found. There is
exactly one way for each byte string, and it is what is computed (`Fields.cut_iff`,
`Ascii.trims_iff`).
-/

namespace AccessControl

/-! ### Dropping from the end -/

section Dropping

variable {α : Type} {p : α → Bool}

/-- Only members that satisfy the condition are dropped, and the last one that is left does not. -/
theorem rdropWhile_spec (p : α → Bool) (l : List α) :
    (∃ back, l = l.rdropWhile p ++ back ∧ ∀ x ∈ back, p x = true) ∧
      ∀ x ∈ (l.rdropWhile p).getLast?, p x = false := by
  induction l using List.reverseRecOn with
  | nil => exact ⟨⟨[], rfl, fun x hx => absurd hx List.not_mem_nil⟩, fun x hx => by cases hx⟩
  | append_singleton front last ih =>
      cases hlast : p last with
      | true =>
          obtain ⟨⟨back, hback, hall⟩, hend⟩ := ih
          rw [List.rdropWhile_concat_pos p front last hlast]
          refine ⟨⟨back ++ [last], ?_, ?_⟩, hend⟩
          · rw [← List.append_assoc, ← hback]
          · simpa [or_imp, forall_and, hlast] using hall
      | false =>
          rw [List.rdropWhile_concat_neg p front last (by simp [hlast])]
          exact ⟨⟨[], by simp, fun x hx => absurd hx List.not_mem_nil⟩, by simp [hlast]⟩

/-- Exactly what is behind a member to be kept is dropped. -/
theorem rdropWhile_append_of_pos {l back : List α} (hback : ∀ x ∈ back, p x = true)
    (hlast : ∀ x ∈ l.getLast?, p x = false) : (l ++ back).rdropWhile p = l := by
  induction back using List.reverseRecOn with
  | nil =>
      rw [List.append_nil, List.rdropWhile_eq_self_iff]
      intro hne
      simp [hlast _ (List.getLast?_eq_some_getLast hne)]
  | append_singleton back x ih =>
      rw [← List.append_assoc, List.rdropWhile_concat_pos p _ x (hback x (by simp))]
      exact ih fun y hy => hback y (List.mem_append_left _ hy)

end Dropping

/-! ### Fields -/

namespace Fields

variable {separator b : UInt8} {bytes : Bytes} {fields : List Bytes}

/-- How a byte string falls into fields: none of them has a separator in it, the last one is not
empty, and with some empty ones behind them they are joined to the byte string. -/
structure Cut (separator : UInt8) (bytes : Bytes) (fields : List Bytes) : Prop where
  whole : ∀ field ∈ fields, separator ∉ field
  last : ∀ last ∈ fields.getLast?, last ≠ []
  joined : ∃ count, bytes = join separator (fields ++ List.replicate count [])

/-- No field has a separator in it. -/
theorem not_mem_of_mem_split {field : Bytes} (h : field ∈ split separator bytes) :
    separator ∉ field := by
  induction bytes generalizing field with
  | nil =>
      rw [List.mem_singleton.mp h]
      exact List.not_mem_nil
  | cons b rest ih =>
      unfold split at h
      split at h
      · rcases List.mem_cons.mp h with rfl | h
        · exact List.not_mem_nil
        · exact ih h
      · rename_i hb
        cases hsplit : split separator rest with
        | nil => exact absurd hsplit (split_ne_nil separator rest)
        | cons first more =>
            rw [hsplit] at h ih
            rcases List.mem_cons.mp h with rfl | h
            · rw [List.mem_cons, not_or]
              exact ⟨Ne.symm hb, ih List.mem_cons_self⟩
            · exact ih (List.mem_cons_of_mem first h)

/-- Joined fields hold their bytes and separators. -/
theorem mem_join (h : b ∈ join separator fields) :
    b = separator ∨ ∃ field ∈ fields, b ∈ field := by
  induction fields with
  | nil => cases h
  | cons field rest ih =>
      cases rest with
      | nil => exact Or.inr ⟨field, List.mem_singleton_self field, h⟩
      | cons next more =>
          rw [join, List.mem_append, List.mem_cons] at h
          · rcases h with h | h | h
            · exact Or.inr ⟨field, List.mem_cons_self, h⟩
            · exact Or.inl h
            · refine (ih h).imp_right ?_
              rintro ⟨other, hother, hb⟩
              exact ⟨other, List.mem_cons_of_mem field hother, hb⟩
          · exact List.cons_ne_nil next more

/-- What is computed is how a byte string falls into fields. -/
theorem cut_dropTrailingEmpty (separator : UInt8) (bytes : Bytes) :
    Cut separator bytes (dropTrailingEmpty (split separator bytes)) := by
  obtain ⟨⟨back, hsplit, hback⟩, hlast⟩ :=
    rdropWhile_spec List.isEmpty (split separator bytes)
  refine ⟨fun field hfield => ?_, fun last hmem => by simpa using hlast last hmem, ?_⟩
  · exact not_mem_of_mem_split (List.rdropWhile_prefix List.isEmpty _ |>.subset hfield)
  · have hempty : back = List.replicate back.length [] :=
      List.eq_replicate_of_mem fun field hfield => by simpa using hback field hfield
    refine ⟨back.length, ?_⟩
    rw [← hempty, dropTrailingEmpty_eq, ← hsplit, join_split]

/-- There is exactly one way to cut a byte string into fields. -/
theorem cut_iff :
    Cut separator bytes fields ↔ dropTrailingEmpty (split separator bytes) = fields := by
  constructor
  · rintro ⟨hwhole, hlast, count, rfl⟩
    cases count with
    | zero =>
        rw [List.replicate_zero, List.append_nil]
        exact trimmed_join hwhole hlast
    | succ count =>
        rw [split_join (by simp), dropTrailingEmpty_eq]
        · refine rdropWhile_append_of_pos (fun field hfield => ?_) fun last hmem => ?_
          · rw [List.eq_of_mem_replicate hfield]
            rfl
          · simpa using hlast last hmem
        · intro field hfield
          rcases List.mem_append.mp hfield with hfield | hfield
          · exact hwhole field hfield
          · rw [List.eq_of_mem_replicate hfield]
            exact List.not_mem_nil
  · rintro rfl
    exact cut_dropTrailingEmpty separator bytes

theorem existsUnique_cut (separator : UInt8) (bytes : Bytes) :
    ∃! fields, Cut separator bytes fields :=
  ⟨_, cut_dropTrailingEmpty separator bytes, fun _ h => (cut_iff.mp h).symm⟩

/-- A byte string of separators has no fields that count. -/
theorem cut_separators (h : ∀ b ∈ bytes, b = separator) : Cut separator bytes [] := by
  have hjoin (count : Nat) :
      join separator (List.replicate (count + 1) []) = List.replicate count separator := by
    induction count with
    | zero => rfl
    | succ count ih => simpa [List.replicate_succ, join] using ih
  refine ⟨by simp, by simp, bytes.length + 1, ?_⟩
  rw [List.nil_append, hjoin]
  exact List.eq_replicate_of_mem h

/-- No byte but separators gets lost. -/
theorem Cut.mem (h : Cut separator bytes fields) (hb : b ∈ bytes) (hne : b ≠ separator) :
    ∃ field ∈ fields, b ∈ field := by
  obtain ⟨count, rfl⟩ := h.joined
  obtain ⟨field, hfield, hmem⟩ := (mem_join hb).resolve_left hne
  rcases List.mem_append.mp hfield with hfield | hfield
  · exact ⟨field, hfield, hmem⟩
  · rw [List.eq_of_mem_replicate hfield] at hmem
    exact absurd hmem List.not_mem_nil

end Fields

/-! ### Blanks -/

namespace Ascii

variable {b : UInt8} {field label : Bytes}

/-- A field holds a label between blanks (`isBlank_iff`): the label neither begins nor ends with
one. -/
structure Trims (field label : Bytes) : Prop where
  between : ∃ front back, field = front ++ (label ++ back) ∧
    (∀ b ∈ front, isBlank b = true) ∧ ∀ b ∈ back, isBlank b = true
  first : ∀ b ∈ label.head?, isBlank b = false
  last : ∀ b ∈ label.getLast?, isBlank b = false

/-- What is computed is the label between blanks. -/
theorem trims_trim (field : Bytes) : Trims field (trim field) := by
  obtain ⟨⟨back, hfield, hback⟩, hlast⟩ := rdropWhile_spec isBlank (field.dropWhile isBlank)
  refine ⟨⟨field.takeWhile isBlank, back, ?_, fun b hb => List.mem_takeWhile_imp hb, hback⟩, ?_,
    hlast⟩
  · exact List.takeWhile_append_dropWhile.symm.trans (congrArg _ hfield)
  · intro b hb
    -- What the label begins with is what the blanks in front of it end at.
    have hstop := List.head?_dropWhile_not isBlank field
    have hhead : (field.dropWhile isBlank).head? = some b := by
      obtain ⟨more, hmore⟩ := List.head?_eq_some_iff.mp hb
      rw [hfield]
      exact List.head?_eq_some_iff.mpr ⟨more ++ back, congrArg (· ++ back) hmore⟩
    rwa [hhead] at hstop

/-- There is exactly one label between the blanks of a field. -/
theorem trims_iff : Trims field label ↔ trim field = label := by
  constructor
  · rintro ⟨⟨front, back, rfl, hfront, hback⟩, hfirst, hlast⟩
    have hdrop : (front ++ (label ++ back)).dropWhile isBlank =
        (label ++ back).dropWhile isBlank := List.dropWhile_append_of_pos hfront
    change List.rdropWhile isBlank _ = label
    rw [hdrop]
    cases label with
    | nil =>
        rw [List.nil_append, List.dropWhile_eq_nil_iff.mpr hback, List.rdropWhile_nil]
    | cons b more =>
        have hb : ¬ isBlank b = true := by simp [hfirst b rfl]
        rw [List.cons_append, List.dropWhile_cons_of_neg hb, ← List.cons_append]
        exact rdropWhile_append_of_pos hback hlast
  · rintro rfl
    exact trims_trim field

/-- No byte but blanks gets lost. -/
theorem Trims.mem (h : Trims field label) (hb : b ∈ field) (hblank : isBlank b = false) :
    b ∈ label := by
  obtain ⟨front, back, rfl, hfront, hback⟩ := h.between
  rw [List.mem_append, List.mem_append] at hb
  rcases hb with hb | hb | hb
  · rw [hfront b hb] at hblank
    cases hblank
  · exact hb
  · rw [hback b hb] at hblank
    cases hblank

end Ascii

end AccessControl
