import Mathlib.Data.List.Forall2
import AccessControl.Proofs.Grant.PlainForm
import AccessControl.Proofs.Text.Slices

/-!
From the older form of labels to the current one.

Writing the older form and reading it meet at `PlainLabels`, what a text of that form holds. Labels
of the alphabet are held by every text in which they stand between blanks, with commas between them
and any number of commas behind (`plainLabels_of_padded`), so such a text is read as the set of the
labels (`decode_of_plainLabels`). What is shown for a set is one of these texts, with no blanks and
no commas behind (`encode_display`), as bytes of the alphabet stand for themselves.

Main statement: `upgrade`.
-/

namespace AccessControl

/-! ### Texts of ASCII bytes -/

namespace Utf8

variable {bytes : Bytes} {b : UInt8}

/-- The character of an ASCII byte is written as that byte. -/
theorem utf8EncodeChar_ofNat (h : b < 0x80) : String.utf8EncodeChar (Char.ofNat b.toNat) = [b] := by
  have hb : b.toNat < 0x80 := UInt8.lt_iff_toNat_lt.mp h
  have hchar : (Char.ofNat b.toNat).toNat = b.toNat := by
    rw [Char.ofNat, dif_pos (Or.inl (by omega))]
    rfl
  rw [utf8EncodeChar_of_ascii (by rwa [hchar]), hchar, UInt8.ofNat_toNat]

/-- Nothing is replaced where all bytes are ASCII. -/
theorem encode_decodeLossy (h : ∀ b ∈ bytes, b < 0x80) : encode (decodeLossy bytes) = bytes := by
  induction bytes with
  | nil => rfl
  | cons b rest ih =>
      have hb := h b List.mem_cons_self
      have hread : lossyFrom none (b :: rest) = Char.ofNat b.toNat :: lossyFrom none rest := by
        have hfeed : feed none b = ([Char.ofNat b.toNat], none) := if_pos hb
        rw [lossyFrom, hfeed, List.singleton_append]
      have hrest := ih fun c hc => h c (List.mem_cons_of_mem b hc)
      rw [decodeLossy, hread, encode_ofList_cons, utf8EncodeChar_ofNat hb]
      exact congrArg (b :: ·) hrest

end Utf8

namespace Fields

variable {separator : UInt8} {fields : List Bytes}

/-- Texts with commas between are fields with commas between. -/
theorem encode_intercalate (texts : List String) :
    Utf8.encode (String.intercalate "," texts) = join Ascii.comma (texts.map Utf8.encode) := by
  induction texts with
  | nil => rfl
  | cons text rest ih =>
      cases rest with
      | nil => rw [String.intercalate_singleton, List.map_singleton, join]
      | cons next more =>
          have hcomma : Utf8.encode "," = [Ascii.comma] := rfl
          rw [String.intercalate_cons_cons, Utf8.encode_append, Utf8.encode_append, ih, hcomma,
            List.append_assoc]
          rfl

/-- Empty fields behind others are separators. -/
theorem join_replicate (hne : fields ≠ []) (count : Nat) :
    join separator (fields ++ List.replicate count []) =
      join separator fields ++ List.replicate count separator := by
  induction count with
  | zero => simp
  | succ count ih =>
      rw [List.replicate_succ', ← List.append_assoc, join_concat (by simp [hne]), ih,
        List.append_assoc, List.replicate_succ']

end Fields

namespace Authorizations

variable {a : Authorizations} {labels fields : List Bytes} {bytes field label : Bytes} {b : UInt8}

/-! ### Labels of the older form -/

/-- A label that the older form can hold. -/
structure Plain (label : Bytes) : Prop where
  nonempty : label ≠ []
  alphabet : ∀ b ∈ label, b ∈ plainAlphabet

/-- The bytes of labels are ASCII, and no label is cut at one of them or loses one as a blank. -/
theorem of_mem_plainAlphabet (h : b ∈ plainAlphabet) :
    b < 0x80 ∧ b ≠ Ascii.comma ∧ Ascii.isBlank b = false := by
  have hall : ∀ b ∈ plainAlphabet, b < 0x80 ∧ b ≠ Ascii.comma ∧ Ascii.isBlank b = false := by
    decide +kernel
  exact hall b h

/-- A field in which a label stands between blanks. -/
def Padded (field label : Bytes) : Prop :=
  ∃ front back, field = front ++ (label ++ back) ∧
    (∀ b ∈ front, Ascii.isBlank b = true) ∧ ∀ b ∈ back, Ascii.isBlank b = true

theorem padded_self (label : Bytes) : Padded label label :=
  ⟨[], [], by simp, by simp, by simp⟩

/-- Labels of the alphabet end where the blanks begin. -/
theorem Padded.trims (h : Padded field label) (hlabel : ∀ b ∈ label, b ∈ plainAlphabet) :
    Ascii.Trims field label where
  between := h
  first b hb := (of_mem_plainAlphabet (hlabel b (List.mem_of_mem_head? hb))).2.2
  last b hb := (of_mem_plainAlphabet (hlabel b (List.mem_of_getLast? hb))).2.2

theorem Padded.comma_not_mem (h : Padded field label) (hlabel : ∀ b ∈ label, b ∈ plainAlphabet) :
    Ascii.comma ∉ field := by
  have hblank : Ascii.isBlank Ascii.comma = false := rfl
  intro hmem
  exact (of_mem_plainAlphabet (hlabel _ ((h.trims hlabel).mem hmem hblank))).2.1 rfl

theorem Padded.ne_nil (h : Padded field label) (hlabel : label ≠ []) : field ≠ [] := by
  obtain ⟨front, back, rfl, -, -⟩ := h
  simp [hlabel]

/-- A text holds the labels that stand in it between blanks, with commas between and behind. -/
theorem plainLabels_of_padded (hlabels : ∀ label ∈ labels, Plain label)
    (hfields : List.Forall₂ Padded fields labels) (count : Nat) :
    PlainLabels (Fields.join Ascii.comma (fields ++ List.replicate count [])) labels := by
  have hboth : List.Forall₂ (fun field label => Plain label ∧ Padded field label) fields labels :=
    ((List.forall₂_and_left _ _).mpr ⟨hlabels, hfields.flip⟩).flip
  have hread : List.Forall₂ (fun field label =>
      (Ascii.comma ∉ field ∧ field ≠ []) ∧ Ascii.Trims field label) fields labels :=
    hboth.imp fun field label h => ⟨⟨h.2.comma_not_mem h.1.alphabet, h.2.ne_nil h.1.nonempty⟩,
      h.2.trims h.1.alphabet⟩
  obtain ⟨hwhole, htrims⟩ := (List.forall₂_and_left _ _).mp hread
  exact ⟨fields, ⟨fun field hmem => (hwhole field hmem).1,
    fun last hlast => (hwhole last (List.mem_of_getLast? hlast)).2, count, rfl⟩, htrims⟩

/-- The header does not stand in front of a text that holds labels of the alphabet. -/
theorem not_header_of_plain (h : PlainLabels bytes labels)
    (hlabels : ∀ label ∈ labels, Plain label) : ¬ header <+: bytes := by
  rintro ⟨body, rfl⟩
  have hmark : (0x21 : UInt8) ∈ header := by decide
  obtain ⟨label, hlabel, hmem⟩ :=
    h.mem (List.mem_append_left body hmark) (by decide) rfl
  have hforeign : (0x21 : UInt8) ∉ plainAlphabet := by decide +kernel
  exact hforeign ((hlabels label hlabel).alphabet _ hmem)

/-- A text that holds labels of the alphabet is read as the set of them. -/
theorem decode_of_plainLabels (h : PlainLabels bytes labels)
    (hlabels : ∀ label ∈ labels, Plain label) : decode bytes = ofLabels labels := by
  rw [decode_of_no_header (not_header_of_plain h hlabels)]
  refine ofFields_of_plain h fun b hb => ?_
  obtain ⟨label, hlabel, hb⟩ := List.mem_flatten.mp hb
  exact (hlabels label hlabel).alphabet b hb

/-- What is shown for labels of the alphabet is the labels with commas between. -/
theorem encode_display (h : ∀ label ∈ a.labels, ∀ b ∈ label, b ∈ plainAlphabet) :
    Utf8.encode a.display = Fields.join Ascii.comma a.labels.toList := by
  rw [display, texts, Fields.encode_intercalate, List.map_map]
  congr 1
  conv_rhs => rw [← List.map_id a.labels.toList]
  refine List.map_congr_left fun label hlabel => Utf8.encode_decodeLossy fun b hb => ?_
  exact (of_mem_plainAlphabet (h label hlabel b hb)).1

/-- **Nothing is lost on the way to the current form.** Whatever labels of the alphabet stand in a
text, in any order and however often, between blanks and with commas between and behind them, the
text is read as the set of these labels, and what is written for the set is read as the set again.
And what is shown for a set of such labels, which may be empty, is read as the set. -/
theorem upgrade :
    (∀ labels fields count, labels ≠ [] → (∀ label ∈ labels, Plain label) →
      List.Forall₂ Padded fields labels →
      ∃ a, decode (Fields.join Ascii.comma fields ++ List.replicate count Ascii.comma) = .ok a ∧
        ofLabels labels = .ok a ∧ (∀ label, label ∈ a.labels ↔ label ∈ labels) ∧
        decode (encode a) = .ok a) ∧
    ∀ a : Authorizations, (∀ label ∈ a.labels, ∀ b ∈ label, b ∈ plainAlphabet) →
      decode (Utf8.encode a.display) = .ok a := by
  constructor
  · intro labels fields count hne hlabels hfields
    have hplain := plainLabels_of_padded hlabels hfields count
    have hsome : fields ≠ [] := by
      rintro rfl
      exact hne (List.forall₂_nil_left_iff.mp hfields)
    rw [Fields.join_replicate hsome] at hplain
    obtain ⟨a, ha⟩ := exists_ofLabels fun hmem => (hlabels [] hmem).nonempty rfl
    exact ⟨a, (decode_of_plainLabels hplain hlabels).trans ha, ha, (ofLabels_eq_ok_iff.mp ha).2,
      decode_encode a⟩
  · intro a halphabet
    have hlabels : ∀ label ∈ a.labels.toList, Plain label := fun label hlabel =>
      ⟨a.nonempty label hlabel, halphabet label hlabel⟩
    have hpadded : List.Forall₂ Padded a.labels.toList a.labels.toList :=
      List.forall₂_same.mpr fun label _ => padded_self label
    have hplain := plainLabels_of_padded hlabels hpadded 0
    rw [List.replicate_zero, List.append_nil, ← encode_display halphabet] at hplain
    exact (decode_of_plainLabels hplain hlabels).trans (ofLabels_toList a)

/-! ### Paths with repeats -/

/-- Two labels, one of them twice, with the marks that labels may have in them. -/
def repeated : List Bytes := ["x.y-z_0", "a:b/c", "x.y-z_0"].map Utf8.encode

/-- The labels with blanks of all five kinds around them. -/
def spread : List Bytes := ["\t x.y-z_0", "a:b/c", "x.y-z_0 \x0c\r\n"].map Utf8.encode

theorem plain_of_mem_repeated : ∀ label ∈ repeated, Plain label := by
  have hall : ∀ label ∈ repeated, label ≠ [] ∧ ∀ b ∈ label, b ∈ plainAlphabet := by
    decide +kernel
  exact fun label hlabel => ⟨(hall label hlabel).1, (hall label hlabel).2⟩

/-- The set of no labels. -/
def noPaths : Authorizations where
  labels := .empty
  nonempty _ hlabel := absurd hlabel List.not_mem_nil

theorem padded_spread : List.Forall₂ Padded spread repeated := by
  have hfront : ∀ b ∈ [Ascii.tab, Ascii.space], Ascii.isBlank b = true := List.all_eq_true.mp rfl
  have hback : ∀ b ∈ [Ascii.space, Ascii.formFeed, Ascii.carriageReturn, Ascii.newline],
      Ascii.isBlank b = true := List.all_eq_true.mp rfl
  have hnone : ∀ b ∈ [], Ascii.isBlank b = true := fun b hb => absurd hb List.not_mem_nil
  exact .cons ⟨_, [], rfl, hfront, hnone⟩
    (.cons (padded_self _) (.cons ⟨[], _, rfl, hnone, hback⟩ .nil))

/-- The labels are read from among the blanks and from what is shown, and no labels are read from
the empty text that is shown for none. -/
theorem upgrade_of_spread :
    (∃ paths, ofLabels repeated = .ok paths ∧
      (repeated ≠ [] ∧ (∀ label ∈ repeated, Plain label) ∧ List.Forall₂ Padded spread repeated ∧
        decode (Utf8.encode "\t x.y-z_0,a:b/c,x.y-z_0 \x0c\r\n,,") = .ok paths ∧
        decode (encode paths) = .ok paths) ∧
      (∀ label ∈ paths.labels, ∀ b ∈ label, b ∈ plainAlphabet) ∧
      paths.display = "a:b/c,x.y-z_0" ∧ decode (Utf8.encode paths.display) = .ok paths) ∧
    noPaths.display = "" ∧ decode (Utf8.encode noPaths.display) = .ok noPaths := by
  obtain ⟨hread, hshown⟩ := upgrade
  refine ⟨?_, rfl, hshown noPaths fun label hlabel => absurd hlabel List.not_mem_nil⟩
  have hplain : ∀ label ∈ SortedSet.ofList repeated, Plain label := fun label hlabel =>
    plain_of_mem_repeated label (SortedSet.mem_ofList.mp hlabel)
  let paths : Authorizations :=
    ⟨.ofList repeated, fun label hlabel => (hplain label hlabel).nonempty⟩
  have halphabet : ∀ label ∈ paths.labels, ∀ b ∈ label, b ∈ plainAlphabet := fun label hlabel =>
    (hplain label hlabel).alphabet
  have hpaths : ofLabels repeated = .ok paths :=
    ofLabels_eq_ok_iff.mpr ⟨fun h => (plain_of_mem_repeated [] h).nonempty rfl,
      fun _ => SortedSet.mem_ofList⟩
  have hne : repeated ≠ [] := List.cons_ne_nil _ _
  obtain ⟨a, ha, hsame, -, hagain⟩ :=
    hread repeated spread 2 hne plain_of_mem_repeated padded_spread
  cases hpaths.symm.trans hsame
  exact ⟨paths, hpaths, ⟨hne, plain_of_mem_repeated, padded_spread, ha, hagain⟩, halphabet, rfl,
    hshown paths halphabet⟩

end Authorizations

end AccessControl
