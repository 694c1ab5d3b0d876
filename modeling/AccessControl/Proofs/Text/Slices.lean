import AccessControl.Text.Utf8

/-!
Cutting a text at places that are counted in bytes.

A text may be cut where a character begins and at its end, and nowhere else (`isBoundary`); `slice`
gives the part between two such places and reports every other cut. What stands between two parts
of a text is cut out without fail (`slice_append`). A run of characters that is found byte by byte
is the run of characters, if all bytes of a character are judged as the character is
(`Judges`, `takeWhile_encode`); bytes of ASCII characters stand for no others (`judges_beq`).
-/

namespace AccessControl.Utf8

/-! ### Characters as bytes -/

theorem encode_eq_flatMap (text : String) :
    encode text = text.toList.flatMap String.utf8EncodeChar := by
  have hbytes : text.toUTF8 = (text.toList.flatMap String.utf8EncodeChar).toByteArray :=
    String.utf8Encode_toList.symm
  rw [encode, hbytes, List.toList_data_toByteArray]

@[simp] theorem encode_append (a b : String) : encode (a ++ b) = encode a ++ encode b := by
  simp [encode_eq_flatMap]

/-- A byte that goes on with a character. -/
def isContinuation (b : UInt8) : Bool := 0x80 ≤ b && b < 0xC0

theorem toNat_ofNat_of_lt {n : Nat} (h : n < 0x100) : (UInt8.ofNat n).toNat = n := by
  rw [UInt8.toNat_ofNat']
  exact Nat.mod_eq_of_lt h

/-- Nothing but its value stands for an ASCII character. -/
theorem utf8EncodeChar_of_ascii {c : Char} (h : c.toNat < 0x80) :
    String.utf8EncodeChar c = [UInt8.ofNat c.toNat] := by
  have hle : c.val.toNat ≤ 127 := Nat.le_of_lt_succ h
  simp only [String.utf8EncodeChar, if_pos hle]
  rfl

/-- No byte of another character has the value of an ASCII character. -/
theorem le_of_mem_utf8EncodeChar {c : Char} (h : ¬ c.toNat < 0x80) {b : UInt8}
    (hb : b ∈ String.utf8EncodeChar c) : 0x80 ≤ b.toNat := by
  have hgt : ¬ c.val.toNat ≤ 127 := by
    intro hle
    exact h (Nat.lt_succ_of_le hle)
  have hrange : ∀ {n : Nat}, 0x80 ≤ n → n < 0x100 → 0x80 ≤ (UInt8.ofNat n).toNat := by
    intro n hge hlt
    rwa [toNat_ofNat_of_lt hlt]
  -- Two, three or four bytes, each in range.
  simp only [String.utf8EncodeChar, if_neg hgt] at hb
  split at hb
  · simp only [List.mem_cons, List.not_mem_nil, or_false] at hb
    rcases hb with rfl | rfl <;> exact hrange (by omega) (by omega)
  · split at hb
    · simp only [List.mem_cons, List.not_mem_nil, or_false] at hb
      rcases hb with rfl | rfl | rfl <;> exact hrange (by omega) (by omega)
    · simp only [List.mem_cons, List.not_mem_nil, or_false] at hb
      rcases hb with rfl | rfl | rfl | rfl <;> exact hrange (by omega) (by omega)

/-- A character begins with a byte that goes on with none. -/
theorem utf8EncodeChar_eq_cons (c : Char) :
    ∃ lead rest, String.utf8EncodeChar c = lead :: rest ∧ isContinuation lead = false := by
  have hlead : ∀ {n : Nat}, n < 0x100 → n < 0x80 ∨ 0xC0 ≤ n →
      isContinuation (UInt8.ofNat n) = false := by
    intro n hlt hrange
    have hn := toNat_ofNat_of_lt hlt
    have hout : ¬ (0x80 ≤ (UInt8.ofNat n).toNat ∧ (UInt8.ofNat n).toNat < 0xC0) := by omega
    simpa [isContinuation, UInt8.le_iff_toNat_le, UInt8.lt_iff_toNat_lt] using hout
  unfold String.utf8EncodeChar
  dsimp only
  split
  · exact ⟨_, _, rfl, hlead (by omega) (by omega)⟩
  · split
    · exact ⟨_, _, rfl, hlead (by omega) (by omega)⟩
    · split
      · exact ⟨_, _, rfl, hlead (by omega) (by omega)⟩
      · exact ⟨_, _, rfl, hlead (by omega) (by omega)⟩

/-! ### Cuts -/

/-- Whether a text may be cut before a byte: at its beginning, at its end, and where a character
begins. -/
def isBoundary (text : String) (place : Nat) : Bool :=
  place == 0 ||
    match (encode text)[place]? with
    | none => place == (encode text).length
    | some b => !isContinuation b

/-- A cut that leaves a text or goes through a character. -/
structure Miscut where
  start : Nat
  stop : Nat
  deriving DecidableEq

/-- The part of a text between two places. -/
def slice (text : String) (start stop : Nat) : Except Miscut String :=
  if start ≤ stop ∧ isBoundary text start = true ∧ isBoundary text stop = true then
    match decode? (((encode text).take stop).drop start) with
    | some part => .ok part
    | none => .error ⟨start, stop⟩
  else .error ⟨start, stop⟩

/-- A text may be cut between two of its parts. -/
theorem isBoundary_append (front back : String) :
    isBoundary (front ++ back) (encode front).length = true := by
  unfold isBoundary
  rw [encode_append, List.getElem?_append_right (Nat.le_refl _), Nat.sub_self,
    List.length_append, encode_eq_flatMap back]
  cases back.toList with
  | nil => simp
  | cons c rest =>
      obtain ⟨lead, more, hbytes, hlead⟩ := utf8EncodeChar_eq_cons c
      simp [List.flatMap_cons, hbytes, hlead]

/-- What stands between two parts of a text is cut out. -/
theorem slice_append (front middle back : String) :
    slice (front ++ middle ++ back) (encode front).length
      ((encode front).length + (encode middle).length) = .ok middle := by
  have hstart : isBoundary (front ++ middle ++ back) (encode front).length = true := by
    rw [String.append_assoc]
    exact isBoundary_append front (middle ++ back)
  have hstop : isBoundary (front ++ middle ++ back)
      ((encode front).length + (encode middle).length) = true := by
    rw [← List.length_append, ← encode_append]
    exact isBoundary_append (front ++ middle) back
  have hpart : ((encode (front ++ middle ++ back)).take
      ((encode front).length + (encode middle).length)).drop (encode front).length =
        encode middle := by
    rw [encode_append, encode_append, ← List.length_append, List.take_left, List.drop_left]
  unfold slice
  rw [if_pos ⟨Nat.le_add_right _ _, hstart, hstop⟩, hpart, decode?_encode]

example : slice "aé" 0 1 = .ok "a" := rfl
example : slice "aé" 0 2 = .error ⟨0, 2⟩ := rfl

/-! ### Runs of characters -/

/-- All bytes of a character are judged as the character is. -/
def Judges (p : UInt8 → Bool) (q : Char → Bool) : Prop :=
  ∀ c, ∀ b ∈ String.utf8EncodeChar c, p b = q c

variable {p : UInt8 → Bool} {q : Char → Bool}

/-- To be judged byte by byte, ASCII characters have to be judged by their values, and nothing else
may be accepted. -/
theorem judges_of_ascii (hascii : ∀ n < 0x80, p (UInt8.ofNat n) = q (Char.ofNat n))
    (hbytes : ∀ b : UInt8, 0x80 ≤ b.toNat → p b = false)
    (hchars : ∀ c : Char, q c = true → c.toNat < 0x80) : Judges p q := by
  intro c b hb
  by_cases h : c.toNat < 0x80
  · rw [utf8EncodeChar_of_ascii h, List.mem_singleton] at hb
    rw [hb, hascii c.toNat h, Char.ofNat_toNat]
  · have hfalse : q c = false := by
      rw [Bool.eq_false_iff]
      intro htrue
      exact h (hchars c htrue)
    rw [hfalse, hbytes b (le_of_mem_utf8EncodeChar h hb)]

/-- The byte of an ASCII character stands for no other. -/
theorem judges_beq {c : Char} (h : c.toNat < 0x80) :
    Judges (· == UInt8.ofNat c.toNat) (· == c) := by
  have hvalue : (UInt8.ofNat c.toNat).toNat = c.toNat := toNat_ofNat_of_lt (by omega)
  intro d b hb
  rw [Bool.eq_iff_iff, beq_iff_eq, beq_iff_eq]
  by_cases hd : d.toNat < 0x80
  · rw [utf8EncodeChar_of_ascii hd, List.mem_singleton] at hb
    have hvalueD : (UInt8.ofNat d.toNat).toNat = d.toNat := toNat_ofNat_of_lt (by omega)
    rw [hb, ← UInt8.toNat_inj, hvalue, hvalueD, Char.toNat_inj]
  · have hge := le_of_mem_utf8EncodeChar hd hb
    constructor
    · rintro rfl
      omega
    · rintro rfl
      exact absurd h hd

theorem Judges.not (h : Judges p q) : Judges (fun b => !p b) fun c => !q c := by
  intro c b hb
  exact congrArg Bool.not (h c b hb)

theorem encode_ofList_cons (c : Char) (rest : List Char) :
    encode (String.ofList (c :: rest)) =
      String.utf8EncodeChar c ++ encode (String.ofList rest) := by
  simp [encode_eq_flatMap]

theorem encode_ofList_nil : encode (String.ofList []) = [] := rfl

/-- A text is the run of characters of a kind at its front and what follows it. -/
theorem ofList_run (q : Char → Bool) (text : List Char) :
    String.ofList text = String.ofList (text.takeWhile q) ++ String.ofList (text.dropWhile q) := by
  rw [← String.ofList_append, List.takeWhile_append_dropWhile]

theorem encode_ofList_run (q : Char → Bool) (text : List Char) :
    encode (String.ofList text) =
      encode (String.ofList (text.takeWhile q)) ++ encode (String.ofList (text.dropWhile q)) := by
  rw [← encode_append, ← ofList_run]

theorem encode_ofList_eq_nil_iff {chars : List Char} :
    encode (String.ofList chars) = [] ↔ chars = [] := by
  cases chars with
  | nil => exact iff_of_true rfl rfl
  | cons c rest =>
      obtain ⟨lead, more, hbytes, -⟩ := utf8EncodeChar_eq_cons c
      rw [encode_ofList_cons, hbytes]
      exact iff_of_false (List.cons_ne_nil _ _) (List.cons_ne_nil c rest)

/-- ASCII characters are written in one byte each. -/
theorem encode_ofList_of_ascii {chars : List Char} (h : ∀ c ∈ chars, c.toNat < 0x80) :
    encode (String.ofList chars) = chars.map fun c => UInt8.ofNat c.toNat := by
  induction chars with
  | nil => rfl
  | cons c rest ih =>
      have hrest : ∀ d ∈ rest, d.toNat < 0x80 := fun d hd => h d (List.mem_cons_of_mem c hd)
      rw [encode_ofList_cons, utf8EncodeChar_of_ascii (h c List.mem_cons_self), ih hrest]
      rfl

/-- Whether a character is one of some ASCII characters is judged by the bytes of these. -/
theorem judges_elem {chars : List Char} (h : ∀ c ∈ chars, c.toNat < 0x80) :
    Judges (fun b => (encode (String.ofList chars)).elem b) fun c => chars.elem c := by
  rw [encode_ofList_of_ascii h]
  induction chars with
  | nil =>
      intro c b _
      rfl
  | cons first rest ih =>
      intro c b hb
      have hfirst := judges_beq (h first List.mem_cons_self) c b hb
      have hrest := ih (fun d hd => h d (List.mem_cons_of_mem first hd)) c b hb
      simp only [List.map_cons, List.elem_cons, hfirst, hrest]

/-- An ASCII character is told by its byte. -/
theorem ofNat_toNat_ofNat {c : Char} (h : c.toNat < 0x80) :
    Char.ofNat (UInt8.ofNat c.toNat).toNat = c := by
  rw [toNat_ofNat_of_lt (Nat.lt_trans h (by decide)), Char.ofNat_toNat]

/-- The run of characters of a kind at the front of a text, found byte by byte. -/
theorem takeWhile_encode (h : Judges p q) (text : List Char) :
    (encode (String.ofList text)).takeWhile p = encode (String.ofList (text.takeWhile q)) := by
  induction text with
  | nil => rfl
  | cons c rest ih =>
      rw [encode_ofList_cons]
      cases hc : q c with
      | true =>
          have hbytes : ∀ b ∈ String.utf8EncodeChar c, p b = true := by
            intro b hb
            rw [h c b hb, hc]
          rw [List.takeWhile_append_of_pos hbytes, ih, List.takeWhile_cons_of_pos hc,
            encode_ofList_cons]
      | false =>
          obtain ⟨lead, more, hbytes, -⟩ := utf8EncodeChar_eq_cons c
          have hlead : p lead = false := by
            rw [h c lead (hbytes ▸ List.mem_cons_self), hc]
          rw [hbytes, List.cons_append, List.takeWhile_cons_of_neg (by simp [hlead]),
            List.takeWhile_cons_of_neg (by simp [hc]), encode_ofList_nil]

/-- Whether a text of ASCII characters stands at the front of another, found byte by byte. -/
theorem isPrefixOf_encode {front : List Char} (hascii : ∀ c ∈ front, c.toNat < 0x80)
    (text : List Char) :
    (encode (String.ofList front)).isPrefixOf (encode (String.ofList text)) =
      front.isPrefixOf text := by
  induction front generalizing text with
  | nil => rfl
  | cons c front ih =>
      have hc : c.toNat < 0x80 := hascii c List.mem_cons_self
      have hrest : ∀ d ∈ front, d.toNat < 0x80 := fun d hd => hascii d (List.mem_cons_of_mem c hd)
      rw [encode_ofList_cons, utf8EncodeChar_of_ascii hc]
      cases text with
      | nil => rfl
      | cons d rest =>
          obtain ⟨lead, more, hbytes, -⟩ := utf8EncodeChar_eq_cons d
          have hlead : (UInt8.ofNat c.toNat == lead) = (c == d) :=
            calc (UInt8.ofNat c.toNat == lead) = (lead == UInt8.ofNat c.toNat) := BEq.comm
              _ = (d == c) := judges_beq hc d lead (hbytes ▸ List.mem_cons_self)
              _ = (c == d) := BEq.comm
          rw [encode_ofList_cons, hbytes, List.cons_append, List.cons_append,
            List.isPrefixOf_cons_cons, List.isPrefixOf_cons_cons, hlead]
          by_cases hsame : c = d
          · subst hsame
            rw [utf8EncodeChar_of_ascii hc] at hbytes
            cases hbytes
            rw [List.nil_append, List.nil_append, ih hrest]
          · rw [beq_eq_false_iff_ne.mpr hsame, Bool.false_and, Bool.false_and]

end AccessControl.Utf8
