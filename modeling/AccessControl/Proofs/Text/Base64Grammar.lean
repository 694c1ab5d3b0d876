import Mathlib.Data.List.Induction
import AccessControl.Proofs.Text.Base64
import AccessControl.Text.Utf8

/-!
Which texts are base64, by what they look like, and of what bytes.

A well-formed text has symbols of the alphabet and then padding that fills its last group of four,
and the bits of the last symbol that no byte takes are zero (`WellFormed`). It spells bytes if its
symbols are the digits in base 64 of a number whose digits in base 256 are the bytes, apart from the
zero bits that padding stands for (`Spells`). In values instead of symbols these are `Fills` and
`Carries`, which are followed group by group in what is written (`exists_carries`,
`Fills.exists_encode`).

* `wellFormed_iff`: the well-formed texts are the ones that are read.
* `spells_iff`: they are read as the bytes that they spell.
-/

namespace AccessControl.Base64

variable {text bytes : Bytes} {v : Nat}

/-- The symbols in the order of their values. -/
def alphabet : Bytes :=
  Utf8.encode "ABCDEFGHIJKLMNOPQRSTUVWXYZabcdefghijklmnopqrstuvwxyz0123456789+/"

/-- Symbols, and at most two pads that fill the last group of four. Each of them stands for two bits
of the last symbol that no byte takes, and these are zero. -/
def WellFormed (text : Bytes) : Prop :=
  ∃ symbols count, text = symbols ++ List.replicate count pad ∧ (∀ s ∈ symbols, s ∈ alphabet) ∧
    count ≤ 2 ∧ text.length % 4 = 0 ∧
    ∀ last ∈ symbols.getLast?, ∀ i < 2 * count, (alphabet.idxOf last).testBit i = false

/-- What a number becomes when it is read on by digits of a base, the highest one first. -/
def readOn (base n : Nat) (digits : List Nat) : Nat :=
  digits.foldl (fun n digit => n * base + digit) n

/-- The symbols of a text, read as digits, are the number of which the bytes are the digits, with
two zero bits behind it for each pad. -/
def Spells (text bytes : Bytes) : Prop :=
  ∃ symbols count, text = symbols ++ List.replicate count pad ∧ (∀ s ∈ symbols, s ∈ alphabet) ∧
    count ≤ 2 ∧ text.length % 4 = 0 ∧ 6 * symbols.length = 8 * bytes.length + 2 * count ∧
    readOn 64 0 (symbols.map alphabet.idxOf) =
      readOn 256 0 (bytes.map UInt8.toNat) <<< (2 * count)

/-! ### Symbols and values -/

theorem alphabet_eq : alphabet = (List.range 64).map symbol := by decide +kernel

/-- The symbol of a value is where it belongs in the alphabet. -/
theorem idxOf_symbol (h : v < 64) : alphabet.idxOf (symbol v) = v := by
  have hall : ∀ k ∈ List.range 64, alphabet.idxOf (symbol k) = k := by
    rw [alphabet_eq]
    decide +kernel
  exact hall v (List.mem_range.mpr h)

/-- Every symbol of the alphabet is the one of its place there. -/
theorem symbol_idxOf {s : UInt8} (h : s ∈ alphabet) :
    alphabet.idxOf s < 64 ∧ symbol (alphabet.idxOf s) = s := by
  obtain ⟨v, hv, rfl⟩ := List.mem_map.mp (alphabet_eq ▸ h)
  rw [idxOf_symbol (List.mem_range.mp hv)]
  exact ⟨List.mem_range.mp hv, rfl⟩

/-- Runs of symbols are those of values below 64, and these are their places. -/
theorem map_idxOf_symbol {vs : List Nat} (h : ∀ v ∈ vs, v < 64) :
    (∀ s ∈ vs.map symbol, s ∈ alphabet) ∧ (vs.map symbol).map alphabet.idxOf = vs := by
  constructor
  · intro s hs
    obtain ⟨v, hv, rfl⟩ := List.mem_map.mp hs
    rw [alphabet_eq]
    exact List.mem_map_of_mem (List.mem_range.mpr (h v hv))
  · rw [List.map_map]
    exact (List.map_congr_left fun v hv => idxOf_symbol (h v hv)).trans (List.map_id vs)

/-! ### Numbers -/

theorem readOn_concat (base n : Nat) (front : List Nat) (last : Nat) :
    readOn base n (front ++ [last]) = readOn base n front * base + last := by
  simp [readOn]

/-- So many digits of a base are determined by their number. -/
theorem readOn_inj {base : Nat} {ds es : List Nat} (hds : ∀ d ∈ ds, d < base)
    (hes : ∀ d ∈ es, d < base) (hlength : ds.length = es.length)
    (h : readOn base 0 ds = readOn base 0 es) : ds = es := by
  induction ds using List.reverseRecOn generalizing es with
  | nil => exact (List.length_eq_zero_iff.mp hlength.symm).symm
  | append_singleton front last ih =>
      rcases List.eq_nil_or_concat' es with rfl | ⟨others, final, rfl⟩
      · simp at hlength
      · simp only [List.forall_mem_append, List.forall_mem_singleton] at hds hes
        rw [readOn_concat, readOn_concat] at h
        have hlast : last = final := by
          have hmod := congrArg (· % base) h
          simpa only [Nat.mul_add_mod_of_lt hds.2, Nat.mul_add_mod_of_lt hes.2] using hmod
        subst hlast
        have hpos : 0 < base := Nat.zero_lt_of_lt hds.2
        have hfront := Nat.eq_of_mul_eq_mul_right hpos (Nat.add_right_cancel h)
        rw [ih hds.1 hes.1 (by simpa using hlength) hfront]

/-! ### Values that fill groups -/

/-- So many lower bits of a number are zero exactly if it is a multiple of that power of two. -/
theorem low_bits_zero_iff {n : Nat} : (∀ i < n, v.testBit i = false) ↔ v % (1 <<< n) = 0 := by
  rw [Nat.one_shiftLeft]
  constructor
  · intro h
    refine Nat.eq_of_testBit_eq fun i => ?_
    rw [Nat.testBit_mod_two_pow, Nat.zero_testBit]
    by_cases hi : i < n
    · simp [h i hi]
    · simp [hi]
  · intro h i hi
    have hbit := Nat.testBit_mod_two_pow v n i
    rw [h, Nat.zero_testBit, decide_eq_true hi, Bool.true_and] at hbit
    exact hbit.symm

/-- Values that have symbols and fill groups of four together with the padding, with nothing in the
bits of the last one that no byte takes. -/
structure Fills (vs : List Nat) (count : Nat) : Prop where
  below : ∀ v ∈ vs, v < 64
  pads : count ≤ 2
  groups : (vs.length + count) % 4 = 0
  spare : ∀ last ∈ vs.getLast?, ∀ i < 2 * count, last.testBit i = false

/-- Well-formed texts are those of values that fill groups. -/
theorem wellFormed_iff_fills :
    WellFormed text ↔
      ∃ vs count, Fills vs count ∧ text = vs.map symbol ++ List.replicate count pad := by
  constructor
  · rintro ⟨symbols, count, rfl, hsymbols, hcount, hlength, hlast⟩
    have hmap : (symbols.map alphabet.idxOf).map symbol = symbols := by
      rw [List.map_map]
      exact (List.map_congr_left fun s hs => (symbol_idxOf (hsymbols s hs)).2).trans
        (List.map_id symbols)
    refine ⟨symbols.map alphabet.idxOf, count, ⟨?_, hcount, by simpa using hlength, ?_⟩, ?_⟩
    · intro v hv
      obtain ⟨s, hs, rfl⟩ := List.mem_map.mp hv
      exact (symbol_idxOf (hsymbols s hs)).1
    · simpa [List.getLast?_map] using hlast
    · rw [hmap]
  · rintro ⟨vs, count, ⟨hlt, hcount, hlength, hlast⟩, rfl⟩
    refine ⟨vs.map symbol, count, rfl, (map_idxOf_symbol hlt).1, hcount, by simpa using hlength, ?_⟩
    intro s hs
    rw [List.getLast?_map] at hs
    obtain ⟨v, hv, rfl⟩ := Option.map_eq_some_iff.mp hs
    rw [idxOf_symbol (hlt v (List.mem_of_getLast? hv))]
    exact hlast v hv

/-- Values that fill groups and have the bits of bytes, whatever number they are read on to. -/
structure Carries (vs : List Nat) (count : Nat) (bytes : Bytes) : Prop where
  fills : Fills vs count
  length : 6 * vs.length = 8 * bytes.length + 2 * count
  number : ∀ n, readOn 64 n vs = readOn 256 n (bytes.map UInt8.toNat) <<< (2 * count)

/-- What is written for bytes are values that have their bits. -/
theorem exists_carries (bytes : Bytes) :
    ∃ vs count, Carries vs count bytes ∧
      encode bytes = vs.map symbol ++ List.replicate count pad := by
  induction bytes using encode.induct with
  | case1 => exact ⟨[], 0, ⟨⟨by simp, by simp, rfl, by simp⟩, rfl, fun n => rfl⟩, rfl⟩
  | case2 a =>
      obtain ⟨hv, -, -, -⟩ := values_lt a 0 0
      refine ⟨[a.toNat / 4, a.toNat % 4 * 16], 2,
        ⟨⟨?_, Nat.le_refl 2, by simp, ?_⟩, by simp, fun n => ?_⟩, rfl⟩
      · simp only [List.forall_mem_cons]
        exact ⟨hv, by omega, fun v hv => absurd hv List.not_mem_nil⟩
      · rintro last hlast
        obtain rfl := Option.some.inj hlast
        exact low_bits_zero_iff.mpr (Nat.mul_mod_left _ 16)
      · simp only [readOn, List.map_cons, List.map_nil, List.foldl_cons, List.foldl_nil,
          Nat.shiftLeft_eq]
        omega
  | case3 a b =>
      obtain ⟨hv, hw, -, -⟩ := values_lt a b 0
      refine ⟨[a.toNat / 4, a.toNat % 4 * 16 + b.toNat / 16, b.toNat % 16 * 4], 1,
        ⟨⟨?_, Nat.le_succ 1, by simp, ?_⟩, by simp, fun n => ?_⟩, rfl⟩
      · simp only [List.forall_mem_cons]
        exact ⟨hv, hw, by omega, fun v hv => absurd hv List.not_mem_nil⟩
      · rintro last hlast
        obtain rfl := Option.some.inj hlast
        exact low_bits_zero_iff.mpr (Nat.mul_mod_left _ 4)
      · simp only [readOn, List.map_cons, List.map_nil, List.foldl_cons, List.foldl_nil,
          Nat.shiftLeft_eq]
        omega
  | case4 a b c rest ih =>
      obtain ⟨vs, count, ⟨⟨hlt, hcount, hgroups, hlast⟩, hlength, hnumber⟩, htext⟩ := ih
      obtain ⟨hv, hw, hx, hy⟩ := values_lt a b c
      refine ⟨a.toNat / 4 :: (a.toNat % 4 * 16 + b.toNat / 16) ::
        (b.toNat % 16 * 4 + c.toNat / 64) :: c.toNat % 64 :: vs, count,
        ⟨⟨?_, hcount, ?_, ?_⟩, ?_, fun n => ?_⟩, ?_⟩
      · simp only [List.forall_mem_cons]
        exact ⟨hv, hw, hx, hy, hlt⟩
      · simp only [List.length_cons]
        omega
      · -- The last value is one of this group only if there are no others, and so no padding.
        cases vs with
        | nil =>
            have hzero : count = 0 := by
              rw [List.length_nil] at hgroups
              omega
            subst hzero
            simp
        | cons v more => simpa using hlast
      · simp only [List.length_cons]
        omega
      · have hgroup : (((n * 64 + a.toNat / 4) * 64 + (a.toNat % 4 * 16 + b.toNat / 16)) * 64 +
            (b.toNat % 16 * 4 + c.toNat / 64)) * 64 + c.toNat % 64 =
            ((n * 256 + a.toNat) * 256 + b.toNat) * 256 + c.toNat := by omega
        have hrest := hnumber (((n * 256 + a.toNat) * 256 + b.toNat) * 256 + c.toNat)
        simpa only [readOn, List.map_cons, List.foldl_cons, hgroup] using hrest
      · rw [encode, htext]
        rfl

/-- Values that fill groups are written for some bytes. -/
theorem Fills.exists_encode {vs : List Nat} {count : Nat} (h : Fills vs count) :
    ∃ bytes, encode bytes = vs.map symbol ++ List.replicate count pad := by
  obtain ⟨hlt, hcount, hlength, hlast⟩ := h
  match vs with
  | [] =>
      have hzero : count = 0 := by
        rw [List.length_nil] at hlength
        omega
      exact ⟨[], by rw [hzero]; rfl⟩
  | [v] =>
      rw [List.length_singleton] at hlength
      omega
  | [v, w] =>
      have htwo : count = 2 := by
        simp only [List.length_cons, List.length_nil] at hlength
        omega
      subst htwo
      have hvalues : v < 64 ∧ w < 64 := by simpa using hlt
      have hzero : w % 16 = 0 := low_bits_zero_iff.mp (hlast w rfl)
      exact ⟨_, encode_unpack_two hvalues.1 hvalues.2 hzero⟩
  | [v, w, x] =>
      have hone : count = 1 := by
        simp only [List.length_cons, List.length_nil] at hlength
        omega
      subst hone
      have hvalues : v < 64 ∧ w < 64 ∧ x < 64 := by simpa using hlt
      have hzero : x % 4 = 0 := low_bits_zero_iff.mp (hlast x rfl)
      exact ⟨_, encode_unpack_three hvalues.1 hvalues.2.1 hvalues.2.2 hzero⟩
  | v :: w :: x :: y :: rest =>
      simp only [List.forall_mem_cons] at hlt
      obtain ⟨hv, hw, hx, hy, hrest⟩ := hlt
      have hfills : Fills rest count := by
        refine ⟨hrest, hcount, ?_, fun last hmem => ?_⟩
        · simp only [List.length_cons] at hlength
          omega
        · exact hlast last (by simp [List.getLast?_cons, Option.mem_def.mp hmem])
      obtain ⟨bytes, hbytes⟩ := hfills.exists_encode
      refine ⟨(unpack [v, w, x, y]).1 ++ bytes, ?_⟩
      rw [encode_unpack_append hv hw hx hy, hbytes]
      rfl

/-! ### Texts -/

/-- The well-formed texts are the ones that are written for some bytes. -/
theorem wellFormed_iff_exists_encode : WellFormed text ↔ ∃ bytes, text = encode bytes := by
  rw [wellFormed_iff_fills]
  constructor
  · rintro ⟨vs, count, hfills, rfl⟩
    obtain ⟨bytes, hbytes⟩ := hfills.exists_encode
    exact ⟨bytes, hbytes.symm⟩
  · rintro ⟨bytes, rfl⟩
    obtain ⟨vs, count, hcarries, htext⟩ := exists_carries bytes
    exact ⟨vs, count, hcarries.fills, htext⟩

/-- **The texts that are read.** A text is read as some bytes exactly if it is well-formed. -/
theorem wellFormed_iff : WellFormed text ↔ ∃ bytes, decode text = .ok bytes := by
  simp only [wellFormed_iff_exists_encode, decode_eq_ok_iff]

/-- What is written for bytes spells them. -/
theorem spells_encode (bytes : Bytes) : Spells (encode bytes) bytes := by
  obtain ⟨vs, count, ⟨⟨hlt, hcount, hgroups, -⟩, hlength, hnumber⟩, htext⟩ := exists_carries bytes
  obtain ⟨hsymbols, hplaces⟩ := map_idxOf_symbol hlt
  refine ⟨vs.map symbol, count, htext, hsymbols, hcount, length_encode bytes, ?_, ?_⟩
  · rw [List.length_map]
    exact hlength
  · rw [hplaces]
    exact hnumber 0

/-- A text that spells bytes is well-formed: the zero bits behind the number are those of its last
digit. -/
theorem Spells.wellFormed (h : Spells text bytes) : WellFormed text := by
  obtain ⟨symbols, count, htext, hsymbols, hcount, hgroups, -, hnumber⟩ := h
  refine ⟨symbols, count, htext, hsymbols, hcount, hgroups, fun last hlast => ?_⟩
  obtain ⟨front, rfl⟩ := List.getLast?_eq_some_iff.mp hlast
  rw [List.map_append, List.map_singleton, readOn_concat] at hnumber
  rw [low_bits_zero_iff]
  have hcases : count = 0 ∨ count = 1 ∨ count = 2 := by omega
  rcases hcases with rfl | rfl | rfl <;> simp only [Nat.shiftLeft_eq] at hnumber ⊢ <;> omega

/-- Symbols end where the padding begins, so a text has them in one way. -/
theorem symbols_unique {symbols others : Bytes} {count number : Nat}
    (hsymbols : ∀ s ∈ symbols, s ∈ alphabet) (hothers : ∀ s ∈ others, s ∈ alphabet)
    (h : symbols ++ List.replicate count pad = others ++ List.replicate number pad) :
    symbols = others ∧ count = number := by
  have htake {run : Bytes} (hrun : ∀ s ∈ run, s ∈ alphabet) (count : Nat) :
      (run ++ List.replicate count pad).takeWhile (· != pad) = run := by
    have hpad : pad ∉ alphabet := by decide +kernel
    rw [List.takeWhile_append_of_pos, List.takeWhile_replicate, if_neg (by simp), List.append_nil]
    intro s hs
    rw [bne_iff_ne]
    rintro rfl
    exact hpad (hrun pad hs)
  have hsame : symbols = others := by
    rw [← htake hsymbols count, h, htake hothers number]
  subst hsame
  exact ⟨rfl, by simpa using congrArg List.length h⟩

/-- A text spells no more than one byte string. -/
theorem Spells.unique {others : Bytes} (h : Spells text bytes) (hother : Spells text others) :
    bytes = others := by
  obtain ⟨symbols, count, rfl, hsymbols, -, -, hlength, hnumber⟩ := h
  obtain ⟨run, number, htext, hrun, -, -, hlengthOther, hnumberOther⟩ := hother
  obtain ⟨rfl, rfl⟩ := symbols_unique hsymbols hrun htext
  have hsame : bytes.map UInt8.toNat = others.map UInt8.toNat := by
    have hbelow (run : Bytes) : ∀ d ∈ run.map UInt8.toNat, d < 256 := by
      intro d hd
      obtain ⟨b, -, rfl⟩ := List.mem_map.mp hd
      exact b.toNat_lt
    refine readOn_inj (hbelow bytes) (hbelow others) ?_ ?_
    · rw [List.length_map, List.length_map]
      omega
    · rw [hnumber, Nat.shiftLeft_eq, Nat.shiftLeft_eq] at hnumberOther
      exact Nat.eq_of_mul_eq_mul_right (Nat.two_pow_pos _) hnumberOther
  exact (List.map_injective_iff.mpr fun b c => UInt8.toNat_inj.mp) hsame

/-- **What texts are read as.** A text is read as bytes exactly if it spells them. -/
theorem spells_iff : Spells text bytes ↔ decode text = .ok bytes := by
  rw [decode_eq_ok_iff]
  constructor
  · intro h
    obtain ⟨others, rfl⟩ := wellFormed_iff_exists_encode.mp h.wellFormed
    rw [h.unique (spells_encode others)]
  · rintro rfl
    exact spells_encode bytes

end AccessControl.Base64
