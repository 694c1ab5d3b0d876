import AccessControl.Proofs.Data.Except
import AccessControl.Text.Base64

/-!
Base64 has one text for each byte string.

Symbols stand for the values below 64 (`value?_symbol`, `symbol_of_value?`). A group of up to three
bytes is spread over one value more than it has bytes; the bytes are read back from the values, and
the values from the bytes where the bits left over are zero. The last places hold two values at
least and padding up to four (`Holds`, `decodeLast_eq_ok_iff`), and all groups before hold four
values (`decodeFrom_group_iff`).

Main statement: `decode_eq_ok_iff`. A text is read as a byte string exactly when it is the one that
is written for it.
-/

namespace AccessControl.Base64

/-! ### Symbols and values -/

/-- The symbol of a value is read as that value. -/
theorem value?_symbol {n : Nat} (h : n < 64) : value? (symbol n) = some n := by
  have hall : ∀ k ∈ List.range 64, value? (symbol k) = some k := by decide
  exact hall n (List.mem_range.mpr h)

/-- A byte that has a value is the symbol of it. -/
theorem symbol_of_value? {b : UInt8} {n : Nat} (h : value? b = some n) : n < 64 ∧ symbol n = b := by
  have hall : ∀ k : Fin 256, ∀ m ∈ value? (UInt8.ofNat k), m < 64 ∧ symbol m = UInt8.ofNat k := by
    decide +kernel
  have hb := hall ⟨b.toNat, b.toNat_lt⟩ n
  rw [UInt8.ofNat_toNat] at hb
  exact hb h

/-- A byte without a value is no symbol. -/
theorem symbol_ne {b : UInt8} {n : Nat} (h : n < 64) (hb : value? b = none) : symbol n ≠ b := by
  intro heq
  rw [← heq, value?_symbol h] at hb
  cases hb

theorem pad_not_mem_symbols {vs : List Nat} (h : ∀ v ∈ vs, v < 64) : pad ∉ vs.map symbol := by
  intro hmem
  obtain ⟨v, hv, heq⟩ := List.mem_map.mp hmem
  exact symbol_ne (h v hv) (by decide) heq

/-- A run of bytes has values exactly when it is the run of their symbols. -/
theorem values_eq_ok_iff {offset : Nat} {text : Bytes} {vs : List Nat} :
    values offset text = .ok vs ↔ (∀ v ∈ vs, v < 64) ∧ text = vs.map symbol := by
  induction text generalizing offset vs with
  | nil =>
      constructor
      · intro h
        cases h
        exact ⟨fun v hv => absurd hv List.not_mem_nil, rfl⟩
      · rintro ⟨-, hnil⟩
        rw [List.map_eq_nil_iff.mp hnil.symm]
        rfl
  | cons b rest ih =>
      constructor
      · intro h
        unfold values at h
        split at h
        · cases h
        · rename_i value hvalue
          cases hrest : values (offset + 1) rest with
          | error fault => simp [hrest, bind, Except.bind] at h
          | ok more =>
              obtain ⟨hmore, hsymbols⟩ := ih.mp hrest
              obtain ⟨hlt, hsymbol⟩ := symbol_of_value? hvalue
              rw [hrest] at h
              cases h
              rw [List.map_cons, hsymbol, ← hsymbols]
              exact ⟨List.forall_mem_cons.mpr ⟨hlt, hmore⟩, rfl⟩
      · rintro ⟨hlt, htext⟩
        cases vs with
        | nil => cases htext
        | cons v more =>
            obtain ⟨hv, hmore⟩ := List.forall_mem_cons.mp hlt
            obtain ⟨rfl, hrest⟩ := List.cons.inj htext
            unfold values
            rw [value?_symbol hv, ih.mpr ⟨hmore, hrest⟩]
            rfl

/-! ### Groups -/

theorem ofNat_eq {n : Nat} {b : UInt8} (h : n = b.toNat) : UInt8.ofNat n = b := by
  rw [h, UInt8.ofNat_toNat]

/-- Two values hold a byte. -/
theorem unpack_one (a : UInt8) : unpack [a.toNat / 4, a.toNat % 4 * 16] = ([a], true) := by
  have ha : a.toNat / 4 * 4 + a.toNat % 4 * 16 / 16 = a.toNat := by omega
  have hzero : a.toNat % 4 * 16 % 16 = 0 := by omega
  simp only [unpack]
  rw [ofNat_eq ha, hzero]
  rfl

/-- Three values hold two bytes. -/
theorem unpack_two (a b : UInt8) :
    unpack [a.toNat / 4, a.toNat % 4 * 16 + b.toNat / 16, b.toNat % 16 * 4] = ([a, b], true) := by
  have hlt := b.toNat_lt
  have ha : a.toNat / 4 * 4 + (a.toNat % 4 * 16 + b.toNat / 16) / 16 = a.toNat := by omega
  have hb : (a.toNat % 4 * 16 + b.toNat / 16) % 16 * 16 + b.toNat % 16 * 4 / 4 = b.toNat := by omega
  have hzero : b.toNat % 16 * 4 % 4 = 0 := by omega
  simp only [unpack]
  rw [ofNat_eq ha, ofNat_eq hb, hzero]
  rfl

/-- Four values hold three bytes. -/
theorem unpack_three (a b c : UInt8) :
    unpack [a.toNat / 4, a.toNat % 4 * 16 + b.toNat / 16, b.toNat % 16 * 4 + c.toNat / 64,
      c.toNat % 64] = ([a, b, c], true) := by
  have hltB := b.toNat_lt
  have hltC := c.toNat_lt
  have ha : a.toNat / 4 * 4 + (a.toNat % 4 * 16 + b.toNat / 16) / 16 = a.toNat := by omega
  have hb : (a.toNat % 4 * 16 + b.toNat / 16) % 16 * 16 + (b.toNat % 16 * 4 + c.toNat / 64) / 4 =
      b.toNat := by omega
  have hc : (b.toNat % 16 * 4 + c.toNat / 64) % 4 * 64 + c.toNat % 64 = c.toNat := by omega
  simp only [unpack]
  rw [ofNat_eq ha, ofNat_eq hb, ofNat_eq hc]

section Values

variable {v w x y : Nat}

theorem toNat_first (hv : v < 64) (hw : w < 64) :
    (UInt8.ofNat (v * 4 + w / 16)).toNat = v * 4 + w / 16 :=
  UInt8.toNat_ofNat_of_lt' (by rw [UInt8.size]; omega)

theorem toNat_second (hx : x < 64) :
    (UInt8.ofNat (w % 16 * 16 + x / 4)).toNat = w % 16 * 16 + x / 4 :=
  UInt8.toNat_ofNat_of_lt' (by rw [UInt8.size]; omega)

theorem toNat_third (hy : y < 64) : (UInt8.ofNat (x % 4 * 64 + y)).toNat = x % 4 * 64 + y :=
  UInt8.toNat_ofNat_of_lt' (by rw [UInt8.size]; omega)

/-- A full group is written with the values it was read from. -/
theorem encode_unpack_append (hv : v < 64) (hw : w < 64) (hx : x < 64) (hy : y < 64)
    (rest : Bytes) :
    encode ((unpack [v, w, x, y]).1 ++ rest) = [v, w, x, y].map symbol ++ encode rest := by
  have hfirst : (v * 4 + w / 16) / 4 = v := by omega
  have hsecond : (v * 4 + w / 16) % 4 * 16 + (w % 16 * 16 + x / 4) / 16 = w := by omega
  have hthird : (w % 16 * 16 + x / 4) % 16 * 4 + (x % 4 * 64 + y) / 64 = x := by omega
  have hfourth : (x % 4 * 64 + y) % 64 = y := by omega
  simp only [unpack, List.cons_append, List.nil_append, encode, List.map_cons, List.map_nil,
    toNat_first hv hw, toNat_second hx, toNat_third hy, hfirst, hsecond, hthird, hfourth]

/-- Two values are written again for the byte that they hold, if nothing is left over. -/
theorem encode_unpack_two (hv : v < 64) (hw : w < 64) (hzero : w % 16 = 0) :
    encode (unpack [v, w]).1 = [symbol v, symbol w, pad, pad] := by
  have hfirst : (v * 4 + w / 16) / 4 = v := by omega
  have hsecond : (v * 4 + w / 16) % 4 * 16 = w := by omega
  simp only [unpack, encode, toNat_first hv hw, hfirst, hsecond]

/-- Three values are written again for the bytes that they hold, if nothing is left over. -/
theorem encode_unpack_three (hv : v < 64) (hw : w < 64) (hx : x < 64) (hzero : x % 4 = 0) :
    encode (unpack [v, w, x]).1 = [symbol v, symbol w, symbol x, pad] := by
  have hfirst : (v * 4 + w / 16) / 4 = v := by omega
  have hsecond : (v * 4 + w / 16) % 4 * 16 + (w % 16 * 16 + x / 4) / 16 = w := by omega
  have hthird : (w % 16 * 16 + x / 4) % 16 * 4 = x := by omega
  simp only [unpack, encode, toNat_first hv hw, toNat_second hx, hfirst, hsecond, hthird]

end Values

/-! ### The last places -/

/-- Four places hold bytes: they are two to four symbols and padding, and no bits are left over. -/
def Holds (places bytes : Bytes) : Prop :=
  ∃ vs, (∀ v ∈ vs, v < 64) ∧ 2 ≤ vs.length ∧ vs.length ≤ 4 ∧
    places = vs.map symbol ++ List.replicate (4 - vs.length) pad ∧ unpack vs = (bytes, true)

theorem holds_one (a : UInt8) : Holds (encode [a]) [a] := by
  have ha := a.toNat_lt
  refine ⟨[a.toNat / 4, a.toNat % 4 * 16], ?_, by simp, by simp, rfl, unpack_one a⟩
  simp only [List.forall_mem_cons]
  exact ⟨by omega, by omega, fun v hv => absurd hv List.not_mem_nil⟩

theorem holds_two (a b : UInt8) : Holds (encode [a, b]) [a, b] := by
  have ha := a.toNat_lt
  have hb := b.toNat_lt
  refine ⟨[a.toNat / 4, a.toNat % 4 * 16 + b.toNat / 16, b.toNat % 16 * 4], ?_, by simp,
    by simp, rfl, unpack_two a b⟩
  simp only [List.forall_mem_cons]
  exact ⟨by omega, by omega, by omega, fun v hv => absurd hv List.not_mem_nil⟩

/-- The values of three bytes have symbols. -/
theorem values_lt (a b c : UInt8) :
    a.toNat / 4 < 64 ∧ a.toNat % 4 * 16 + b.toNat / 16 < 64 ∧
      b.toNat % 16 * 4 + c.toNat / 64 < 64 ∧ c.toNat % 64 < 64 := by
  have ha := a.toNat_lt
  have hb := b.toNat_lt
  have hc := c.toNat_lt
  omega

theorem holds_three (a b c : UInt8) : Holds (encode [a, b, c]) [a, b, c] := by
  refine ⟨[a.toNat / 4, a.toNat % 4 * 16 + b.toNat / 16, b.toNat % 16 * 4 + c.toNat / 64,
    c.toNat % 64], ?_, by simp, by simp, rfl, unpack_three a b c⟩
  obtain ⟨hv, hw, hx, hy⟩ := values_lt a b c
  simp only [List.forall_mem_cons]
  exact ⟨hv, hw, hx, hy, fun v hv => absurd hv List.not_mem_nil⟩

/-- Places that hold bytes are what is written for them. -/
theorem encode_of_holds {places bytes : Bytes} (h : Holds places bytes) :
    encode bytes = places := by
  obtain ⟨vs, hlt, htwo, hfour, rfl, hunpack⟩ := h
  obtain ⟨rfl, hzero⟩ := Prod.ext_iff.mp hunpack
  match vs, htwo, hfour with
  | [v, w], _, _ =>
      have hvalues : v < 64 ∧ w < 64 := by simpa using hlt
      exact encode_unpack_two hvalues.1 hvalues.2 (by simpa [unpack] using hzero)
  | [v, w, x], _, _ =>
      have hvalues : v < 64 ∧ w < 64 ∧ x < 64 := by simpa using hlt
      exact encode_unpack_three hvalues.1 hvalues.2.1 hvalues.2.2 (by simpa [unpack] using hzero)
  | [v, w, x, y], _, _ =>
      obtain ⟨hv, hw, hx, hy⟩ : v < 64 ∧ w < 64 ∧ x < 64 ∧ y < 64 := by simpa using hlt
      have hgroup := encode_unpack_append hv hw hx hy []
      rwa [List.append_nil] at hgroup

/-- Symbols end where the padding begins. -/
theorem takeWhile_symbols {vs : List Nat} (h : ∀ v ∈ vs, v < 64) (count : Nat) :
    (vs.map symbol ++ List.replicate count pad).takeWhile (· != pad) = vs.map symbol ∧
      (vs.map symbol ++ List.replicate count pad).dropWhile (· != pad) =
        List.replicate count pad := by
  have hsymbols : ∀ b ∈ vs.map symbol, (b != pad) = true := by
    intro b hb
    rw [bne_iff_ne]
    rintro rfl
    exact pad_not_mem_symbols h hb
  constructor
  · rw [List.takeWhile_append_of_pos hsymbols, List.takeWhile_replicate, if_neg (by simp),
      List.append_nil]
  · rw [List.dropWhile_append_of_pos hsymbols, List.dropWhile_replicate, if_neg (by simp)]

/-- The last places are read exactly where they hold bytes. -/
theorem decodeLast_eq_ok_iff {offset : Nat} {tail bytes : Bytes} :
    decodeLast offset tail = .ok bytes ↔ Holds tail bytes := by
  unfold decodeLast
  simp only [bind_eq_ok, throw_bind_if_eq_ok, ite_throw_eq_ok, values_eq_ok_iff]
  constructor
  · rintro ⟨vs, ⟨hlt, hsymbols⟩, hpadding, htwo, hfour, hzero, rfl⟩
    have htail := List.takeWhile_append_dropWhile (p := (· != pad)) (l := tail)
    rw [hsymbols] at htail hpadding htwo
    have hlength := congrArg List.length htail
    rw [List.length_append, List.length_map] at hlength
    rw [List.length_map, Nat.not_lt] at htwo
    have hall : ∀ b ∈ tail.dropWhile (· != pad), b = pad := by
      intro b hb
      by_contra hother
      refine hpadding ?_
      rw [Bool.and_eq_true, Bool.or_eq_true, Bool.not_eq_true', List.isEmpty_eq_false_iff]
      exact ⟨List.ne_nil_of_mem hb, Or.inr (List.any_eq_true.mpr ⟨b, hb, bne_iff_ne.mpr hother⟩)⟩
    refine ⟨vs, hlt, htwo, by omega, ?_, Prod.ext rfl hzero⟩
    rw [← htail, List.append_cancel_left_eq, List.eq_replicate_iff]
    exact ⟨by omega, hall⟩
  · rintro ⟨vs, hlt, htwo, hfour, rfl, hunpack⟩
    obtain ⟨htake, hdrop⟩ := takeWhile_symbols hlt (4 - vs.length)
    have hsymbols : ¬ (vs.map symbol).length < 2 := by
      rw [List.length_map]
      omega
    rw [htake, hdrop]
    refine ⟨vs, ⟨hlt, rfl⟩, ?_, hsymbols, ?_, by rw [hunpack], by rw [hunpack]⟩
    · simp only [Bool.and_eq_true, Bool.or_eq_true, decide_eq_true_eq, hsymbols, false_or,
        List.any_eq_true, List.mem_replicate]
      rintro ⟨-, b, ⟨-, rfl⟩, hother⟩
      exact bne_iff_ne.mp hother rfl
    · rw [not_not, List.length_append, List.length_map, List.length_replicate]
      omega

/-! ### Whole texts -/

/-- Four places with more behind them are four symbols. -/
theorem decodeFrom_group_iff {offset : Nat} {a b c d e : UInt8} {rest bytes : Bytes} :
    decodeFrom offset (a :: b :: c :: d :: e :: rest) = .ok bytes ↔
      ∃ v w x y more, (v < 64 ∧ w < 64 ∧ x < 64 ∧ y < 64) ∧
        [a, b, c, d] = [v, w, x, y].map symbol ∧
        decodeFrom (offset + 4) (e :: rest) = .ok more ∧
        bytes = (unpack [v, w, x, y]).1 ++ more := by
  rw [decodeFrom, bind_eq_ok]
  constructor
  · rintro ⟨vs, hvs, hmore⟩
    obtain ⟨hlt, hsymbols⟩ := values_eq_ok_iff.mp hvs
    obtain ⟨more, hrest, hbytes⟩ := bind_eq_ok.mp hmore
    have hlength : vs.length = 4 := by simpa using congrArg List.length hsymbols.symm
    match vs, hlength with
    | [v, w, x, y], _ =>
        exact ⟨v, w, x, y, more, by simpa using hlt, hsymbols, hrest,
          (Except.ok.inj hbytes).symm⟩
  · rintro ⟨v, w, x, y, more, hlt, hsymbols, hrest, rfl⟩
    refine ⟨[v, w, x, y], values_eq_ok_iff.mpr ⟨by simpa using hlt, hsymbols⟩, ?_⟩
    exact bind_eq_ok.mpr ⟨more, hrest, rfl⟩

/-- Whatever is read is the text that is written for the bytes. -/
theorem encode_of_decodeFrom {offset : Nat} {text bytes : Bytes}
    (h : decodeFrom offset text = .ok bytes) : encode bytes = text := by
  induction offset, text using decodeFrom.induct generalizing bytes with
  | case1 offset =>
      cases h
      rfl
  | case2 offset a b c d e rest ih =>
      obtain ⟨v, w, x, y, more, ⟨hv, hw, hx, hy⟩, hsymbols, hrest, rfl⟩ := decodeFrom_group_iff.mp h
      rw [encode_unpack_append hv hw hx hy, ih hrest, ← hsymbols]
      rfl
  | case3 offset tail hne hshort =>
      rw [decodeFrom] at h
      · exact encode_of_holds (decodeLast_eq_ok_iff.mp h)
      · exact hne
      · exact hshort

theorem encode_eq_nil_iff {bytes : Bytes} : encode bytes = [] ↔ bytes = [] := by
  constructor
  · intro h
    cases bytes with
    | nil => rfl
    | cons a rest =>
        match rest with
        | [] => cases h
        | [_] => cases h
        | _ :: _ :: _ => cases h
  · rintro rfl
    rfl

/-- Up to four places that hold bytes are read as them. -/
theorem decodeFrom_of_holds {offset : Nat} {places bytes : Bytes} (h : Holds places bytes) :
    decodeFrom offset places = .ok bytes := by
  have hlast : decodeLast offset places = .ok bytes := decodeLast_eq_ok_iff.mpr h
  obtain ⟨vs, -, htwo, hfour, rfl, -⟩ := h
  have hlength : (vs.map symbol ++ List.replicate (4 - vs.length) pad).length = 4 := by
    rw [List.length_append, List.length_map, List.length_replicate]
    omega
  rw [decodeFrom]
  · exact hlast
  · intro hnil
    rw [hnil] at hlength
    cases hlength
  · intro a b c d e rest hlong
    rw [hlong] at hlength
    simp only [List.length_cons] at hlength
    omega

/-- What is written for bytes is read as them. -/
theorem decodeFrom_encode (offset : Nat) (bytes : Bytes) :
    decodeFrom offset (encode bytes) = .ok bytes := by
  induction bytes using encode.induct generalizing offset with
  | case1 => rfl
  | case2 a => exact decodeFrom_of_holds (holds_one a)
  | case3 a b => exact decodeFrom_of_holds (holds_two a b)
  | case4 a b c rest ih =>
      cases htext : encode rest with
      | nil =>
          obtain rfl := encode_eq_nil_iff.mp htext
          exact decodeFrom_of_holds (holds_three a b c)
      | cons e more =>
          rw [encode, htext, decodeFrom_group_iff, ← htext]
          exact ⟨_, _, _, _, rest, values_lt a b c, rfl, ih (offset + 4),
            by rw [unpack_three]; rfl⟩

/-- Three bytes are written before all others. -/
theorem encode_append_three (a b c : UInt8) (rest : Bytes) :
    encode (a :: b :: c :: rest) = encode [a, b, c] ++ encode rest := by
  simp only [encode, List.cons_append, List.nil_append]

/-- What is written fills whole groups of four. -/
theorem length_encode (bytes : Bytes) : (encode bytes).length % 4 = 0 := by
  induction bytes using encode.induct with
  | case1 => rfl
  | case2 a => simp [encode]
  | case3 a b => simp [encode]
  | case4 a b c rest ih =>
      rw [encode]
      simp only [List.length_cons]
      omega

/-- **Base64 is strict.** A text is read as a byte string exactly when it is the one that is written
for it. -/
theorem decode_eq_ok_iff {text bytes : Bytes} : decode text = .ok bytes ↔ text = encode bytes := by
  constructor
  · intro h
    unfold decode at h
    split at h
    · cases h
    · exact (encode_of_decodeFrom h).symm
  · rintro rfl
    have hwhole : strayLast? (encode bytes) = none := by
      rw [strayLast?, length_encode]
      rfl
    rw [decode, hwhole]
    exact decodeFrom_encode 0 bytes

theorem encode_injective : Function.Injective encode := by
  intro a b h
  have hread := decode_eq_ok_iff.mpr h
  rw [decode_eq_ok_iff.mpr rfl] at hread
  exact Except.ok.inj hread

/-! ### What texts are made of -/

theorem Holds.symbol_or_pad {places bytes : Bytes} (h : Holds places bytes) {s : UInt8}
    (hs : s ∈ places) : s = pad ∨ ∃ v, v < 64 ∧ s = symbol v := by
  obtain ⟨vs, hlt, -, -, rfl, -⟩ := h
  rcases List.mem_append.mp hs with hs | hs
  · obtain ⟨v, hv, rfl⟩ := List.mem_map.mp hs
    exact Or.inr ⟨v, hlt v hv, rfl⟩
  · exact Or.inl (List.eq_of_mem_replicate hs)

/-- Texts are made of symbols and padding. -/
theorem mem_encode {s : UInt8} {bytes : Bytes} (h : s ∈ encode bytes) :
    s = pad ∨ ∃ v, v < 64 ∧ s = symbol v := by
  induction bytes using encode.induct with
  | case1 => cases h
  | case2 a => exact (holds_one a).symbol_or_pad h
  | case3 a b => exact (holds_two a b).symbol_or_pad h
  | case4 a b c rest ih =>
      rw [encode_append_three] at h
      rcases List.mem_append.mp h with h | h
      · exact (holds_three a b c).symbol_or_pad h
      · exact ih h

/-- A byte that is neither padding nor a symbol stands in no text. -/
theorem not_mem_encode {b : UInt8} (hpad : b ≠ pad) (hb : value? b = none) (bytes : Bytes) :
    b ∉ encode bytes := by
  intro hmem
  rcases mem_encode hmem with rfl | ⟨v, hv, rfl⟩
  · exact hpad rfl
  · exact symbol_ne hv hb rfl

end AccessControl.Base64
