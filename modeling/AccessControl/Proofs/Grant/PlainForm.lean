import AccessControl.Proofs.Grant.StoredForm

/-!
The older form of labels, which has no header and holds the labels as they are.

What such a text holds is told apart from how it is read: it falls into fields, and each field holds
a label between blanks (`PlainLabels`). Reading it is a search for the first foreign byte in all
labels one behind the other (`mapM_plainLabel`), so a foreign byte in any field goes before an empty
label in another. A text with the header would be read neither way, since the header begins with a
byte that no label may hold.

Main statement: `decode_plain`.
-/

namespace AccessControl.Authorizations

variable {bytes : Bytes} {labels fields : List Bytes} {byte : UInt8}

/-! ### The alphabet -/

/-- The bytes that unencoded labels are made of. -/
def plainAlphabet : Bytes :=
  Utf8.encode "ABCDEFGHIJKLMNOPQRSTUVWXYZabcdefghijklmnopqrstuvwxyz0123456789_-:./"

theorem isLabelByte_iff : isLabelByte byte = true ↔ byte ∈ plainAlphabet := by
  have hall : ∀ k : Fin 256,
      isLabelByte (UInt8.ofNat k) = true → UInt8.ofNat k ∈ plainAlphabet := by
    decide +kernel
  constructor
  · have hbyte := hall ⟨byte.toNat, byte.toNat_lt⟩
    rwa [UInt8.ofNat_toNat] at hbyte
  · have halphabet : ∀ b ∈ plainAlphabet, isLabelByte b = true := by decide +kernel
    exact halphabet byte

/-- The first byte of a byte string that no unencoded label may hold. -/
def FirstForeign (byte : UInt8) (bytes : Bytes) : Prop :=
  byte ∉ plainAlphabet ∧
    ∃ before after, bytes = before ++ byte :: after ∧ ∀ b ∈ before, b ∈ plainAlphabet

/-- What is searched for is the first foreign byte. -/
theorem find?_foreign_eq_some_iff :
    (bytes.find? fun b => !isLabelByte b) = some byte ↔ FirstForeign byte bytes := by
  simp only [List.find?_eq_some_iff_append, Bool.not_not, Bool.not_eq_true', ← Bool.not_eq_true,
    isLabelByte_iff, FirstForeign]

/-- Nothing is found where there is no foreign byte. -/
theorem find?_foreign_eq_none_iff :
    (bytes.find? fun b => !isLabelByte b) = none ↔ ∀ b ∈ bytes, b ∈ plainAlphabet := by
  simp only [List.find?_eq_none, Bool.not_eq_true', Bool.not_eq_false, isLabelByte_iff]

/-- Where there are foreign bytes, one of them is the first. -/
theorem exists_firstForeign (h : ¬ ∀ b ∈ bytes, b ∈ plainAlphabet) :
    ∃ byte, FirstForeign byte bytes := by
  rw [← find?_foreign_eq_none_iff, ← ne_eq, Option.ne_none_iff_exists'] at h
  obtain ⟨byte, hbyte⟩ := h
  exact ⟨byte, find?_foreign_eq_some_iff.mp hbyte⟩

/-! ### What a text holds -/

/-- The labels that a text without a header holds: it falls into fields, and each of them holds a
label between blanks. -/
def PlainLabels (bytes : Bytes) (labels : List Bytes) : Prop :=
  ∃ fields, Fields.Cut Ascii.comma bytes fields ∧ List.Forall₂ Ascii.Trims fields labels

theorem forall₂_trims_iff :
    List.Forall₂ Ascii.Trims fields labels ↔ fields.map Ascii.trim = labels := by
  rw [← List.forall₂_eq_eq_eq, List.forall₂_map_left_iff]
  exact ⟨fun h => h.imp fun _ _ => Ascii.trims_iff.mp,
    fun h => h.imp fun _ _ => Ascii.trims_iff.mpr⟩

/-- Every text holds exactly one list of labels. -/
theorem existsUnique_plainLabels (bytes : Bytes) : ∃! labels, PlainLabels bytes labels := by
  obtain ⟨fields, hcut, hunique⟩ := Fields.existsUnique_cut Ascii.comma bytes
  refine ⟨fields.map Ascii.trim, ⟨fields, hcut, forall₂_trims_iff.mpr rfl⟩, ?_⟩
  rintro labels ⟨others, hothers, htrims⟩
  rw [← forall₂_trims_iff.mp htrims, hunique others hothers]

/-- No byte of a text gets lost but commas and blanks. -/
theorem PlainLabels.mem (h : PlainLabels bytes labels) (hbyte : byte ∈ bytes)
    (hcomma : byte ≠ Ascii.comma) (hblank : Ascii.isBlank byte = false) :
    ∃ label ∈ labels, byte ∈ label := by
  obtain ⟨fields, hcut, htrims⟩ := h
  obtain ⟨field, hfield, hmem⟩ := hcut.mem hbyte hcomma
  refine ⟨Ascii.trim field, ?_, (Ascii.trims_trim field).mem hmem hblank⟩
  rw [← forall₂_trims_iff.mp htrims]
  exact List.mem_map_of_mem hfield

/-! ### How it is read -/

/-- Reading fields is a search for a foreign byte in all that they hold between blanks. -/
theorem mapM_plainLabel (fields : List Bytes) :
    fields.mapM plainLabel =
      match (fields.map Ascii.trim).flatten.find? fun b => !isLabelByte b with
      | some byte => .error (.invalidLabels (.foreignByte byte))
      | none => .ok (fields.map Ascii.trim) := by
  induction fields with
  | nil => rfl
  | cons field rest ih =>
      rw [List.mapM_cons, ih, List.map_cons, List.flatten_cons, List.find?_append]
      unfold plainLabel
      cases (Ascii.trim field).find? fun b => !isLabelByte b with
      | some byte => rfl
      | none =>
          cases (rest.map Ascii.trim).flatten.find? fun b => !isLabelByte b with
          | some byte => rfl
          | none => rfl

/-- A text with a foreign byte is refused for the first one. -/
theorem ofFields_of_firstForeign (h : PlainLabels bytes labels)
    (hfirst : FirstForeign byte labels.flatten) :
    ofFields plainLabel bytes = .error (.invalidLabels (.foreignByte byte)) := by
  obtain ⟨fields, hcut, htrims⟩ := h
  rw [← forall₂_trims_iff.mp htrims] at hfirst
  rw [ofFields_of_cut hcut, mapM_plainLabel, find?_foreign_eq_some_iff.mpr hfirst]
  rfl

/-- A text without foreign bytes is read as the set of its labels. -/
theorem ofFields_of_plain (h : PlainLabels bytes labels)
    (hplain : ∀ b ∈ labels.flatten, b ∈ plainAlphabet) :
    ofFields plainLabel bytes = ofLabels labels := by
  obtain ⟨fields, hcut, htrims⟩ := h
  rw [← forall₂_trims_iff.mp htrims] at hplain ⊢
  rw [ofFields_of_cut hcut, mapM_plainLabel, find?_foreign_eq_none_iff.mpr hplain]
  rfl

/-- A text is read as a set exactly if its labels are not empty and have no foreign bytes. -/
theorem exists_ofFields_plain_iff (h : PlainLabels bytes labels) :
    (∃ a, ofFields plainLabel bytes = .ok a) ↔
      ∀ label ∈ labels, label ≠ [] ∧ ∀ b ∈ label, b ∈ plainAlphabet := by
  constructor
  · rintro ⟨a, hread⟩
    have hplain : ∀ b ∈ labels.flatten, b ∈ plainAlphabet := by
      by_contra hforeign
      obtain ⟨byte, hfirst⟩ := exists_firstForeign hforeign
      rw [ofFields_of_firstForeign h hfirst] at hread
      cases hread
    rw [ofFields_of_plain h hplain, ofLabels_eq_ok_iff] at hread
    intro label hlabel
    exact ⟨ne_of_mem_of_not_mem hlabel hread.1,
      fun b hb => hplain b (List.mem_flatten_of_mem hlabel hb)⟩
  · intro hall
    rw [ofFields_of_plain h]
    · exact exists_ofLabels fun hmem => (hall [] hmem).1 rfl
    · intro b hb
      obtain ⟨label, hlabel, hb⟩ := List.mem_flatten.mp hb
      exact (hall label hlabel).2 b hb

/-- A text without the header is read as one of the older form. -/
theorem decode_of_no_header (h : ¬ header <+: bytes) :
    decode bytes = ofFields plainLabel bytes := by
  unfold decode
  cases hheader : header.isPrefixOf? bytes with
  | none => rfl
  | some body => exact absurd ⟨body, List.isPrefixOf?_eq_some_iff_append_eq.mp hheader⟩ h

/-- **The older form.** Every text holds exactly one list of labels, those between blanks in its
fields, without the empty fields at its end. A text without the header is read as a set if none of
its labels is empty and all their bytes are of the alphabet, and the set has those labels. If there
is any foreign byte, the first one in all labels is reported; an empty label is reported only if
there is none. A text with the header would not be read as one of the older form. -/
theorem decode_plain (bytes : Bytes) :
    (∃! labels, PlainLabels bytes labels) ∧ ∀ labels, PlainLabels bytes labels →
      (¬ header <+: bytes →
        ((∃ a, decode bytes = .ok a) ↔
          ∀ label ∈ labels, label ≠ [] ∧ ∀ b ∈ label, b ∈ plainAlphabet) ∧
        (∀ a, decode bytes = .ok a → ∀ label, label ∈ a.labels ↔ label ∈ labels) ∧
        ((∃ label ∈ labels, ∃ b ∈ label, b ∉ plainAlphabet) →
          ∃ byte, FirstForeign byte labels.flatten ∧
            decode bytes = .error (.invalidLabels (.foreignByte byte))) ∧
        ((∀ label ∈ labels, ∀ b ∈ label, b ∈ plainAlphabet) → [] ∈ labels →
          decode bytes = .error (.invalidLabels .emptyLabel))) ∧
      (header <+: bytes →
        (∃ label ∈ labels, ∃ b ∈ label, b ∉ plainAlphabet) ∧
        ∀ a, ofFields plainLabel bytes ≠ .ok a) := by
  refine ⟨existsUnique_plainLabels bytes, fun labels h => ⟨fun hheader => ?_, fun hheader => ?_⟩⟩
  · rw [decode_of_no_header hheader]
    have hflatten : (∀ b ∈ labels.flatten, b ∈ plainAlphabet) ↔
        ∀ label ∈ labels, ∀ b ∈ label, b ∈ plainAlphabet := List.forall_mem_flatten
    refine ⟨exists_ofFields_plain_iff h, fun a hread => ?_, fun hforeign => ?_,
      fun hplain hempty => ?_⟩
    · have hall := (exists_ofFields_plain_iff h).mp ⟨a, hread⟩
      rw [ofFields_of_plain h (hflatten.mpr fun label hlabel => (hall label hlabel).2)] at hread
      exact (ofLabels_eq_ok_iff.mp hread).2
    · obtain ⟨label, hlabel, b, hb, hother⟩ := hforeign
      obtain ⟨byte, hfirst⟩ := exists_firstForeign fun hplain =>
        hother (hplain b (List.mem_flatten_of_mem hlabel hb))
      exact ⟨byte, hfirst, ofFields_of_firstForeign h hfirst⟩
    · rw [ofFields_of_plain h (hflatten.mpr hplain), ofLabels_of_mem hempty]
  · -- The header begins with a byte that is cut off nowhere.
    obtain ⟨body, rfl⟩ := hheader
    have hmark : (0x21 : UInt8) ∈ header := by decide
    obtain ⟨label, hlabel, hmem⟩ :=
      h.mem (List.mem_append_left body hmark) (by decide) (by decide)
    have hforeign : (0x21 : UInt8) ∉ plainAlphabet := by decide +kernel
    refine ⟨⟨label, hlabel, 0x21, hmem, hforeign⟩, fun a hread => ?_⟩
    exact hforeign (((exists_ofFields_plain_iff h).mp ⟨a, hread⟩ label hlabel).2 _ hmem)

/-! ### A text with blanks and one with a blank too many -/

/-- Two labels among blanks of all five kinds, and commas at the end. -/
def spaced : Bytes := Utf8.encode "\x0cb\r\n, a\t,,"

theorem plainLabels_spaced : PlainLabels spaced [[98], [97]] :=
  ⟨_, Fields.cut_iff.mpr rfl, forall₂_trims_iff.mpr rfl⟩

/-- An empty label, and behind it one with a blank inside. -/
def divided : Bytes := Utf8.encode "a,,b c"

theorem plainLabels_divided : PlainLabels divided [[97], [], [98, 0x20, 99]] :=
  ⟨_, Fields.cut_iff.mpr rfl, forall₂_trims_iff.mpr rfl⟩

/-- The first text is read, the second one is refused for its blank, and a text with the header
would be refused. -/
theorem plain_of_spaced :
    (PlainLabels spaced [[98], [97]] ∧ ¬ header <+: spaced ∧
      ∃ a, decode spaced = .ok a ∧ ∀ label, label ∈ a.labels ↔ label ∈ [[98], [97]]) ∧
    (PlainLabels divided [[97], [], [98, 0x20, 99]] ∧ ¬ header <+: divided ∧
      decode divided = .error (.invalidLabels (.foreignByte Ascii.space))) ∧
    header <+: disordered ∧ ∀ a, ofFields plainLabel disordered ≠ .ok a := by
  refine ⟨?_, ?_, ?_⟩
  · have hheader : ¬ header <+: spaced := by decide
    obtain ⟨hread, hlabels, -⟩ :=
      ((decode_plain spaced).2 _ plainLabels_spaced).1 hheader
    obtain ⟨a, ha⟩ := hread.mpr (by decide +kernel)
    exact ⟨plainLabels_spaced, hheader, a, ha, hlabels a ha⟩
  · have hheader : ¬ header <+: divided := by decide
    obtain ⟨-, -, hforeign, -⟩ :=
      ((decode_plain divided).2 _ plainLabels_divided).1 hheader
    obtain ⟨byte, hfirst, hrefused⟩ := hforeign (by decide +kernel)
    have hspace : (some byte : Option UInt8) = some Ascii.space :=
      (find?_foreign_eq_some_iff.mpr hfirst).symm.trans rfl
    cases hspace
    exact ⟨plainLabels_divided, hheader, hrefused⟩
  · have hheader : header <+: disordered := List.prefix_append header _
    obtain ⟨labels, hlabels, -⟩ := (decode_plain disordered).1
    exact ⟨hheader, (((decode_plain disordered).2 labels hlabels).2 hheader).2⟩

end AccessControl.Authorizations
