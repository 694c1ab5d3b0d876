import AccessControl.Proofs.Grant.StoredForm
import AccessControl.Proofs.Text.Base64Grammar

/-!
The current form of labels, behind its header.

The body falls into fields, and each field is the base64 of a label. Reading them either gives all
labels or stops at the first field that is no base64 (`mapM_encodedLabel`), so such a field goes
before an empty label in another. Only then is there a look at whether a field is empty: an empty
field is base64, of the empty label.

Main statement: `decode_encoded`.
-/

namespace AccessControl.Authorizations

variable {labels fields : List Bytes} {body field label : Bytes} {b : UInt8}

/-! ### Fields -/

/-- A field is refused for what is wrong with it as base64. -/
theorem encodedLabel_eq_error_iff {e : GrantError} :
    encodedLabel field = .error e ↔
      ∃ fault, Base64.decode field = .error fault ∧ e = .invalidLabels (.encoding fault) := by
  unfold encodedLabel
  cases Base64.decode field with
  | ok read => simp
  | error fault => simp [eq_comm]

/-- A field holds a label exactly if it is well-formed. -/
theorem wellFormed_iff_encodedLabel :
    Base64.WellFormed field ↔ ∃ label, encodedLabel field = .ok label := by
  simp only [Base64.wellFormed_iff, encodedLabel_eq_ok_iff, Base64.decode_eq_ok_iff]

/-- What is written for labels is well-formed. -/
theorem wellFormed_of_mem_map (hfield : field ∈ labels.map Base64.encode) :
    Base64.WellFormed field := by
  obtain ⟨label, -, rfl⟩ := List.mem_map.mp hfield
  exact Base64.wellFormed_iff_exists_encode.mpr ⟨label, rfl⟩

/-- Fields are read as the labels that they are the base64 of, or refused for the first one that is
no base64. -/
theorem mapM_encodedLabel (fields : List Bytes) :
    ((∀ field ∈ fields, Base64.WellFormed field) ∧
      ∃ labels, fields = labels.map Base64.encode ∧ fields.mapM encodedLabel = .ok labels) ∨
    ∃ before field after fault, fields = before ++ field :: after ∧
      (∀ other ∈ before, Base64.WellFormed other) ∧ ¬ Base64.WellFormed field ∧
      Base64.decode field = .error fault ∧
      fields.mapM encodedLabel = .error (.invalidLabels (.encoding fault)) := by
  cases hread : fields.mapM encodedLabel with
  | ok labels =>
      have hfields : fields = labels.map Base64.encode := by
        rw [← forall₂_decode_iff]
        refine (mapM_eq_ok.mp hread).imp fun field label h => ?_
        rwa [encodedLabel_eq_ok_iff, ← Base64.decode_eq_ok_iff] at h
      exact Or.inl ⟨fun field hfield => wellFormed_of_mem_map (hfields ▸ hfield), labels,
        hfields, rfl⟩
  | error e =>
      obtain ⟨before, field, after, rfl, hbefore, herror⟩ := mapM_eq_error.mp hread
      obtain ⟨fault, hfault, rfl⟩ := encodedLabel_eq_error_iff.mp herror
      refine Or.inr ⟨before, field, after, fault, rfl,
        fun other hother => wellFormed_iff_encodedLabel.mpr (hbefore other hother), ?_, hfault, rfl⟩
      rw [Base64.wellFormed_iff, hfault]
      rintro ⟨label, hlabel⟩
      cases hlabel

/-- A byte that is a blank stands in no base64. -/
theorem not_wellFormed_of_blank (hb : b ∈ field) (hblank : Ascii.isBlank b = true) :
    ¬ Base64.WellFormed field := by
  rw [Base64.wellFormed_iff_exists_encode]
  rintro ⟨label, rfl⟩
  have hall : ∀ b ∈ ([0x20, 0x09, 0x0A, 0x0C, 0x0D] : Bytes),
      b ≠ Base64.pad ∧ Base64.value? b = none := by
    decide +kernel
  obtain ⟨hpad, hvalue⟩ := hall b (Ascii.isBlank_iff.mp hblank)
  exact Base64.not_mem_encode hpad hvalue label hb

/-! ### Texts -/

/-- Where every field is base64, a text is read as the set of the labels that they hold. -/
theorem decode_of_wellFormed (h : Fields.Cut Ascii.comma body fields)
    (hgood : ∀ field ∈ fields, Base64.WellFormed field) :
    ∃ labels, fields = labels.map Base64.encode ∧ decode (header ++ body) = ofLabels labels := by
  rw [decode_header, ofFields_of_cut h]
  rcases mapM_encodedLabel fields with
    ⟨-, labels, hfields, hread⟩ | ⟨before, field, after, -, hfields, -, hother, -⟩
  · exact ⟨labels, hfields, by rw [hread]; rfl⟩
  · exact absurd (hgood field (by simp [hfields])) hother

/-- Where some field is no base64, a text is refused for the first one. -/
theorem decode_of_not_wellFormed (h : Fields.Cut Ascii.comma body fields)
    (hother : ∃ field ∈ fields, ¬ Base64.WellFormed field) :
    ∃ before field after fault, fields = before ++ field :: after ∧
      (∀ other ∈ before, Base64.WellFormed other) ∧ ¬ Base64.WellFormed field ∧
      Base64.decode field = .error fault ∧
      decode (header ++ body) = .error (.invalidLabels (.encoding fault)) := by
  rw [decode_header, ofFields_of_cut h]
  rcases mapM_encodedLabel fields with
    ⟨hgood, -⟩ | ⟨before, field, after, fault, hfields, hbefore, hfirst, hfault, hread⟩
  · obtain ⟨field, hfield, hother⟩ := hother
    exact absurd (hgood field hfield) hother
  · exact ⟨before, field, after, fault, hfields, hbefore, hfirst, hfault, by rw [hread]; rfl⟩

/-- An empty field holds the empty label, and no other field does. -/
theorem empty_mem_map_encode : [] ∈ labels.map Base64.encode ↔ [] ∈ labels := by
  rw [List.mem_map]
  constructor
  · rintro ⟨label, hlabel, hempty⟩
    exact Base64.encode_eq_nil_iff.mp hempty ▸ hlabel
  · intro hempty
    exact ⟨[], hempty, rfl⟩

/-- The labels that are spelled by what is written for labels are those labels. -/
theorem exists_spells_iff :
    (∃ field ∈ labels.map Base64.encode, Base64.Spells field label) ↔ label ∈ labels := by
  simp only [Base64.spells_iff, Base64.decode_eq_ok_iff, exists_eq_right]
  exact List.mem_map_of_injective Base64.encode_injective

/-- A text is read as a set exactly if every field is base64 of a label that is not empty. -/
theorem exists_decode_encoded_iff (h : Fields.Cut Ascii.comma body fields) :
    (∃ a, decode (header ++ body) = .ok a) ↔
      ∀ field ∈ fields, field ≠ [] ∧ Base64.WellFormed field := by
  by_cases hgood : ∀ field ∈ fields, Base64.WellFormed field
  · obtain ⟨labels, rfl, hdecode⟩ := decode_of_wellFormed h hgood
    rw [hdecode]
    constructor
    · rintro ⟨a, hread⟩ field hfield
      have hempty := (ofLabels_eq_ok_iff.mp hread).1
      rw [← empty_mem_map_encode] at hempty
      exact ⟨ne_of_mem_of_not_mem hfield hempty, hgood field hfield⟩
    · intro hall
      refine exists_ofLabels fun hempty => ?_
      exact (hall [] (empty_mem_map_encode.mpr hempty)).1 rfl
  · refine iff_of_false ?_ fun hall => hgood fun field hfield => (hall field hfield).2
    simp only [not_forall] at hgood
    obtain ⟨field, hfield, hother⟩ := hgood
    obtain ⟨-, -, -, fault, -, -, -, -, hdecode⟩ :=
      decode_of_not_wellFormed h ⟨field, hfield, hother⟩
    rw [hdecode]
    rintro ⟨a, hread⟩
    cases hread

/-- **The current form.** There is exactly one way in which a body falls into fields, without the
empty ones at its end. A text with the header is read as a set if no field is empty and every one is
strict base64, and the set has the labels that the fields spell; a body of commas has none. If
there is any field that is no base64, what is wrong with the first one is reported; an empty field
is reported only if there is none. A body with a blank anywhere is refused as no base64. -/
theorem decode_encoded (body : Bytes) :
    (∃! fields, Fields.Cut Ascii.comma body fields) ∧
    (∀ fields, Fields.Cut Ascii.comma body fields →
      ((∃ a, decode (header ++ body) = .ok a) ↔
        ∀ field ∈ fields, field ≠ [] ∧ Base64.WellFormed field) ∧
      (∀ a, decode (header ++ body) = .ok a →
        ∀ label, label ∈ a.labels ↔ ∃ field ∈ fields, Base64.Spells field label) ∧
      ((∃ field ∈ fields, ¬ Base64.WellFormed field) →
        ∃ before field after fault, fields = before ++ field :: after ∧
          (∀ other ∈ before, Base64.WellFormed other) ∧ ¬ Base64.WellFormed field ∧
          Base64.decode field = .error fault ∧
          decode (header ++ body) = .error (.invalidLabels (.encoding fault))) ∧
      ((∀ field ∈ fields, Base64.WellFormed field) → [] ∈ fields →
        decode (header ++ body) = .error (.invalidLabels .emptyLabel))) ∧
    ((∀ b ∈ body, b = Ascii.comma) →
      ∃ a, decode (header ++ body) = .ok a ∧ ∀ label, label ∉ a.labels) ∧
    ((∃ b ∈ body, Ascii.isBlank b = true) →
      ∃ fault, decode (header ++ body) = .error (.invalidLabels (.encoding fault))) := by
  refine ⟨Fields.existsUnique_cut Ascii.comma body, fun fields h =>
    ⟨exists_decode_encoded_iff h, fun a hread label => ?_, decode_of_not_wellFormed h,
      fun hgood hempty => ?_⟩, fun hcommas => ?_, ?_⟩
  · have hall := (exists_decode_encoded_iff h).mp ⟨a, hread⟩
    obtain ⟨labels, rfl, hdecode⟩ :=
      decode_of_wellFormed h fun field hfield => (hall field hfield).2
    rw [hdecode, ofLabels_eq_ok_iff] at hread
    rw [hread.2 label, exists_spells_iff]
  · obtain ⟨labels, rfl, hdecode⟩ := decode_of_wellFormed h hgood
    rw [hdecode, ofLabels_of_mem (empty_mem_map_encode.mp hempty)]
  · obtain ⟨labels, hfields, hdecode⟩ :=
      decode_of_wellFormed (Fields.cut_separators hcommas) (by simp)
    obtain rfl : labels = [] := List.map_eq_nil_iff.mp hfields.symm
    obtain ⟨a, ha⟩ : ∃ a, ofLabels [] = .ok a := exists_ofLabels List.not_mem_nil
    exact ⟨a, hdecode.trans ha,
      fun label hlabel => List.not_mem_nil (((ofLabels_eq_ok_iff.mp ha).2 label).mp hlabel)⟩
  · -- A blank is no comma, so it stands in one of the fields.
    rintro ⟨b, hb, hblank⟩
    have hcomma : b ≠ Ascii.comma := by
      rintro rfl
      cases hblank
    obtain ⟨fields, h, -⟩ := Fields.existsUnique_cut Ascii.comma body
    obtain ⟨field, hfield, hmem⟩ := h.mem hb hcomma
    obtain ⟨-, -, -, fault, -, -, -, -, hdecode⟩ :=
      decode_of_not_wellFormed h ⟨field, hfield, not_wellFormed_of_blank hmem hblank⟩
    exact ⟨fault, hdecode⟩

/-! ### Two labels, and two empty fields -/

/-- Two labels in base64, with a comma behind them. -/
def twoLabels : Bytes := Utf8.encode "Yg==,YQ==,"

/-- An empty field in front of a label. -/
def emptyBefore : Bytes := Utf8.encode ",YQ=="

/-- An empty field in front of one whose last symbol has bits that no byte takes. -/
def spareBits : Bytes := Utf8.encode ",YR=="

theorem cut_twoLabels :
    Fields.Cut Ascii.comma twoLabels ([[98], [97]].map Base64.encode) := Fields.cut_iff.mpr rfl

theorem cut_emptyBefore :
    Fields.Cut Ascii.comma emptyBefore ([[], [97]].map Base64.encode) := Fields.cut_iff.mpr rfl

theorem cut_spareBits : Fields.Cut Ascii.comma spareBits [[], Utf8.encode "YR=="] :=
  Fields.cut_iff.mpr rfl

/-- A label in base64, with a form feed behind it. -/
def paged : Bytes := Utf8.encode "YQ==\x0c"

/-- The two labels are read, the empty field is refused, what is behind an empty field is refused
before it, and a blank is refused. -/
theorem encoded_of_twoLabels :
    (Fields.Cut Ascii.comma twoLabels ([[98], [97]].map Base64.encode) ∧
      ∃ a, decode (header ++ twoLabels) = .ok a ∧
        ∀ label, label ∈ a.labels ↔ label ∈ [[98], [97]]) ∧
    (Fields.Cut Ascii.comma emptyBefore ([[], [97]].map Base64.encode) ∧
      decode (header ++ emptyBefore) = .error (.invalidLabels .emptyLabel)) ∧
    (Fields.Cut Ascii.comma spareBits [[], Utf8.encode "YR=="] ∧
      ∃ fault, decode (header ++ spareBits) = .error (.invalidLabels (.encoding fault))) ∧
    (Ascii.formFeed ∈ paged ∧ Ascii.isBlank Ascii.formFeed = true ∧
      ∃ fault, decode (header ++ paged) = .error (.invalidLabels (.encoding fault))) := by
  refine ⟨⟨cut_twoLabels, ?_⟩, ⟨cut_emptyBefore, ?_⟩, ⟨cut_spareBits, ?_⟩, ?_⟩
  · obtain ⟨hread, hlabels, -⟩ := (decode_encoded twoLabels).2.1 _ cut_twoLabels
    obtain ⟨a, ha⟩ := hread.mpr fun field hfield =>
      ⟨ne_of_mem_of_not_mem hfield (by decide), wellFormed_of_mem_map hfield⟩
    exact ⟨a, ha, fun label => (hlabels a ha label).trans exists_spells_iff⟩
  · obtain ⟨-, -, -, hempty⟩ := (decode_encoded emptyBefore).2.1 _ cut_emptyBefore
    exact hempty (fun field => wellFormed_of_mem_map) (by decide)
  · obtain ⟨-, -, hother, -⟩ := (decode_encoded spareBits).2.1 _ cut_spareBits
    have hspare : ¬ Base64.WellFormed (Utf8.encode "YR==") := by
      rw [Base64.wellFormed_iff]
      rintro ⟨bytes, hread⟩
      cases hread
    obtain ⟨-, -, -, fault, -, -, -, -, hdecode⟩ := hother ⟨_, by simp, hspare⟩
    exact ⟨fault, hdecode⟩
  · have hmem : Ascii.formFeed ∈ paged := by decide
    have hblank : Ascii.isBlank Ascii.formFeed = true := Ascii.isBlank_iff.mpr (by decide)
    exact ⟨hmem, hblank, (decode_encoded paged).2.2.2 ⟨_, hmem, hblank⟩⟩

end AccessControl.Authorizations
