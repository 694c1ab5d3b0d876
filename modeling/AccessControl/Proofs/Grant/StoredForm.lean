import AccessControl.Grant.Authorizations
import AccessControl.Proofs.Data.Except
import AccessControl.Proofs.Text.Base64
import AccessControl.Proofs.Text.Cuts

/-!
The stored form of labels.

A text of the current form is read as the labels that its fields are the base64 of
(`decode_current_iff`). What is written has the fields of the labels in their order, so it is read
back (`decode_encode`), and a text that is read is the one that is written exactly when it is
canonical: it has the header, no comma at its end, and its labels ascend.

Main statement: `roundTrip`, for lists of labels and for stored texts.
-/

namespace AccessControl.Authorizations

variable {a : Authorizations} {labels fields : List Bytes} {body bytes field : Bytes}

/-! ### Sets of labels -/

/-- A list of labels makes a set if none of them is empty, and the set has the labels of the
list. -/
theorem ofLabels_eq_ok_iff :
    ofLabels labels = .ok a ↔ [] ∉ labels ∧ ∀ label, label ∈ a.labels ↔ label ∈ labels := by
  unfold ofLabels
  split
  · rename_i hempty
    exact ⟨fun h => (by cases h), fun h => absurd hempty h.1⟩
  · rename_i hnonempty
    constructor
    · intro h
      cases h
      exact ⟨hnonempty, fun label => SortedSet.mem_ofList⟩
    · rintro ⟨-, hmem⟩
      obtain ⟨set, hset⟩ := a
      congr
      exact SortedSet.ext fun label => SortedSet.mem_ofList.trans (hmem label).symm

/-- Lists of labels without an empty one make sets. -/
theorem exists_ofLabels (h : [] ∉ labels) : ∃ a, ofLabels labels = .ok a := by
  unfold ofLabels
  rw [dif_neg h]
  exact ⟨_, rfl⟩

/-- Lists of labels with an empty one do not. -/
theorem ofLabels_of_mem (h : [] ∈ labels) :
    ofLabels labels = .error (.invalidLabels .emptyLabel) := by
  unfold ofLabels
  rw [dif_pos h]

/-- Two lists make the same set exactly when they have the same labels. -/
theorem ofLabels_inj {b : Authorizations} {others : List Bytes} (ha : ofLabels labels = .ok a)
    (hb : ofLabels others = .ok b) : a = b ↔ ∀ label, label ∈ labels ↔ label ∈ others := by
  obtain ⟨-, hlabels⟩ := ofLabels_eq_ok_iff.mp ha
  obtain ⟨hnonempty, hothers⟩ := ofLabels_eq_ok_iff.mp hb
  constructor
  · rintro rfl label
    exact (hlabels label).symm.trans (hothers label)
  · intro hsame
    have hother : ofLabels others = .ok a :=
      ofLabels_eq_ok_iff.mpr ⟨hnonempty, fun label => (hlabels label).trans (hsame label)⟩
    exact Except.ok.inj (hother.symm.trans hb)

/-- A set is made from its own labels. -/
theorem ofLabels_toList (a : Authorizations) : ofLabels a.labels.toList = .ok a :=
  ofLabels_eq_ok_iff.mpr ⟨fun h => a.nonempty [] h rfl, fun _ => Iff.rfl⟩

/-- The labels of a set that is made from ascending ones are those, in that order. -/
theorem toList_of_ascending (h : ofLabels labels = .ok a) (hascending : labels.Pairwise (· < ·)) :
    a.labels.toList = labels :=
  SortedSet.eq_of_ascending a.labels.ascending hascending (ofLabels_eq_ok_iff.mp h).2

/-! ### Fields -/

theorem encodedLabel_eq_ok_iff {label : Bytes} :
    encodedLabel field = .ok label ↔ field = Base64.encode label := by
  rw [← Base64.decode_eq_ok_iff]
  unfold encodedLabel
  cases Base64.decode field with
  | ok read => simp only [Except.ok.injEq]
  | error fault => exact ⟨fun h => (by cases h), fun h => (by cases h)⟩

/-- A body is read as the set of the labels that its fields hold. -/
theorem ofFields_eq_ok_iff {label : Bytes → Except GrantError Bytes} :
    ofFields label body = .ok a ↔ ∃ labels,
      List.Forall₂ (fun field held => label field = .ok held)
        (Fields.dropTrailingEmpty (Fields.split Ascii.comma body)) labels ∧
      ofLabels labels = .ok a := by
  unfold ofFields
  simp only [bind_eq_ok, mapM_eq_ok]

/-- However a body falls into fields, it is read field by field. -/
theorem ofFields_of_cut {label : Bytes → Except GrantError Bytes}
    (h : Fields.Cut Ascii.comma body fields) :
    ofFields label body = fields.mapM label >>= ofLabels := by
  rw [← Fields.cut_iff.mp h]
  rfl

/-- Fields hold labels in base64 exactly when they are what is written for the labels. -/
theorem forall₂_decode_iff :
    List.Forall₂ (fun field label => Base64.decode field = .ok label) fields labels ↔
      fields = labels.map Base64.encode := by
  have heq : fields = labels.map Base64.encode ↔
      List.Forall₂ (· = ·) fields (labels.map Base64.encode) := by
    rw [List.forall₂_eq_eq_eq]
  simp only [heq, List.forall₂_map_right_iff, Base64.decode_eq_ok_iff]

/-- A text with the header is read as one of the current form. -/
theorem decode_header (body : Bytes) : decode (header ++ body) = ofFields encodedLabel body := by
  have hheader : header.isPrefixOf? (header ++ body) = some body :=
    List.isPrefixOf?_eq_some_iff_append_eq.mpr rfl
  unfold decode
  rw [hheader]

/-- A text with the header is read as the set of the labels that its fields are the base64 of. -/
theorem decode_current_iff :
    decode (header ++ body) = .ok a ↔ ∃ labels,
      Fields.dropTrailingEmpty (Fields.split Ascii.comma body) = labels.map Base64.encode ∧
      ofLabels labels = .ok a := by
  simp only [decode_header, ofFields_eq_ok_iff, encodedLabel_eq_ok_iff, ← Base64.decode_eq_ok_iff,
    forall₂_decode_iff]

/-! ### Written texts -/

theorem comma_not_mem_encode (label : Bytes) : Ascii.comma ∉ Base64.encode label :=
  Base64.not_mem_encode (by decide) (by decide) label

/-- What is written for labels has no comma in a field and no empty field at its end. -/
theorem fields_of_labels (h : [] ∉ labels) :
    (∀ field ∈ labels.map Base64.encode, Ascii.comma ∉ field) ∧
      ∀ last ∈ (labels.map Base64.encode).getLast?, last ≠ [] := by
  constructor
  · intro field hfield
    obtain ⟨label, -, rfl⟩ := List.mem_map.mp hfield
    exact comma_not_mem_encode label
  · rintro last hlast rfl
    obtain ⟨label, hlabel, hencode⟩ := List.mem_map.mp (List.mem_of_getLast? hlast)
    rw [Base64.encode_eq_nil_iff.mp hencode] at hlabel
    exact h hlabel

/-- What is written for a set is read as that set. -/
theorem decode_encode (a : Authorizations) : decode (encode a) = .ok a := by
  obtain ⟨hcomma, hlast⟩ := fields_of_labels (ofLabels_eq_ok_iff.mp (ofLabels_toList a)).1
  rw [encode, decode_current_iff]
  exact ⟨a.labels.toList, Fields.trimmed_join hcomma hlast, ofLabels_toList a⟩

theorem encode_inj {b : Authorizations} : encode a = encode b ↔ a = b := by
  constructor
  · intro h
    have hread := decode_encode a
    rw [h, decode_encode] at hread
    exact (Except.ok.inj hread).symm
  · rintro rfl
    rfl

/-! ### Canonical texts -/

/-- A stored text that is written the one way: the header, a body without a comma at its end, and in
its fields labels that ascend. -/
def Canonical (bytes : Bytes) : Prop :=
  ∃ body labels, bytes = header ++ body ∧ body.getLast? ≠ some Ascii.comma ∧
    List.Forall₂ (fun field label => Base64.decode field = .ok label)
      (Fields.dropTrailingEmpty (Fields.split Ascii.comma body)) labels ∧
    labels.Pairwise (· < ·)

theorem canonical_encode (a : Authorizations) : Canonical (encode a) := by
  obtain ⟨hcomma, hlast⟩ := fields_of_labels (ofLabels_eq_ok_iff.mp (ofLabels_toList a)).1
  refine ⟨_, a.labels.toList, rfl, Fields.getLast?_join_ne hcomma hlast, ?_, a.labels.ascending⟩
  rw [forall₂_decode_iff]
  exact Fields.trimmed_join hcomma hlast

/-- A canonical text that is read is the one that is written for what it is read as. -/
theorem encode_of_canonical (h : decode bytes = .ok a) (hcanonical : Canonical bytes) :
    encode a = bytes := by
  obtain ⟨body, labels, rfl, hcomma, hfields, hascending⟩ := hcanonical
  rw [forall₂_decode_iff] at hfields
  obtain ⟨read, hread, hof⟩ := decode_current_iff.mp h
  rw [hfields] at hread
  obtain rfl := Base64.encode_injective.list_map hread
  rw [encode, toList_of_ascending hof hascending, ← hfields, Fields.join_trimmed hcomma]

/-- **Labels go both ways.** A list of non-empty labels is a set, which is read back from what is
written for it; and two such lists are written alike exactly when they have the same labels. Of
the stored texts that are read, the canonical ones are written again as they are, and any other is
written as a different text that is read as the same set. -/
theorem roundTrip :
    (∀ labels : List Bytes, [] ∉ labels → ∃ a, ofLabels labels = .ok a ∧
      (∀ label, label ∈ a.labels ↔ label ∈ labels) ∧ decode (encode a) = .ok a) ∧
    (∀ labels₁ labels₂ a₁ a₂, ofLabels labels₁ = .ok a₁ → ofLabels labels₂ = .ok a₂ →
      (encode a₁ = encode a₂ ↔ ∀ label, label ∈ labels₁ ↔ label ∈ labels₂)) ∧
    ∀ bytes a, decode bytes = .ok a → (encode a = bytes ↔ Canonical bytes) ∧
      (¬ Canonical bytes → encode a ≠ bytes ∧ decode (encode a) = .ok a) := by
  refine ⟨?_, ?_, ?_⟩
  · intro labels hnonempty
    obtain ⟨a, ha⟩ := exists_ofLabels hnonempty
    exact ⟨a, ha, (ofLabels_eq_ok_iff.mp ha).2, decode_encode a⟩
  · intro labels₁ labels₂ a₁ a₂ h₁ h₂
    rw [encode_inj]
    exact ofLabels_inj h₁ h₂
  · intro bytes a hread
    have hiff : encode a = bytes ↔ Canonical bytes := by
      constructor
      · rintro rfl
        exact canonical_encode a
      · exact encode_of_canonical hread
    exact ⟨hiff, fun hother => ⟨fun hsame => hother (hiff.mp hsame), decode_encode a⟩⟩

/-! ### Labels out of order -/

/-- Two labels in descending order, with a comma behind them. -/
def disordered : Bytes := header ++ Utf8.encode "Yg==,YQ==,"

theorem not_canonical_disordered : ¬ Canonical disordered := by
  rintro ⟨body, labels, hbody, hcomma, -, -⟩
  rw [← List.append_cancel_left hbody] at hcomma
  exact hcomma (by decide)

/-- Labels that are a comma or the header are read back, repeats and order do not show in what is
written, and labels that are stored out of order are put in order. -/
theorem written_of_disordered :
    ([] ∉ [[Ascii.comma], header] ∧ ∃ a, ofLabels [[Ascii.comma], header] = .ok a ∧
      (∀ label, label ∈ a.labels ↔ label ∈ [[Ascii.comma], header]) ∧
      decode (encode a) = .ok a) ∧
    (∃ a₁ a₂, ofLabels [[98], [97], [98]] = .ok a₁ ∧ ofLabels [[97], [98]] = .ok a₂ ∧
      encode a₁ = encode a₂) ∧
    ∃ a, decode disordered = .ok a ∧ ¬ Canonical disordered ∧ encode a ≠ disordered ∧
      decode (encode a) = .ok a := by
  obtain ⟨hlists, hsame, htexts⟩ := roundTrip
  refine ⟨?_, ?_, ?_⟩
  · have hnonempty : [] ∉ [[Ascii.comma], header] := by decide
    exact ⟨hnonempty, hlists _ hnonempty⟩
  · refine ⟨_, _, rfl, rfl, (hsame [[98], [97], [98]] [[97], [98]] _ _ rfl rfl).mpr ?_⟩
    intro label
    simp only [List.mem_cons, List.not_mem_nil, or_false]
    tauto
  · have hread : decode disordered = .ok ⟨.ofList [[97], [98]], by decide⟩ := rfl
    exact ⟨_, hread, not_canonical_disordered, (htexts _ _ hread).2 not_canonical_disordered⟩

end AccessControl.Authorizations
