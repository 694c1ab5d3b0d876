import Mathlib.Data.List.Induction
import AccessControl.Proofs.Json.Strings
import AccessControl.Proofs.Text.Slices

/-!
Reading numbers.

Every written number is read to its end (`readNumeral_append`). What it stands for is an unsigned
integer of 64 bits exactly if it is written as one: in decimal digits, without a sign, a fraction, an
exponent or a zero in front (`readNumber_decimal`, `exists_decimal`). So where such an integer is
wanted, every other value is refused (`readUnsigned_refuses`, `readUnsigned?_refuses`).
-/

namespace AccessControl.Json

variable {ended : Fault} {digits text rest before : Bytes} {numeral : Numeral} {n limit : Nat}

/-! ### The written form -/

/-- What does not go on with a digit. -/
def StopsDigits (rest : Bytes) : Prop := ∀ b ∈ rest.head?, Ascii.isDigit b = false

/-- Nothing that may follow a value goes on with a number. -/
theorem Ends.head?_cases (h : Ends rest) : ∀ b ∈ rest.head?,
    Ascii.isDigit b = false ∧ b ≠ Ascii.point ∧ b ≠ 0x65 ∧ b ≠ 0x45 := by
  intro b hb
  rcases h b hb with hblank | rfl | rfl | rfl
  · simp only [isBlank, Bool.or_eq_true, beq_iff_eq] at hblank
    rcases hblank with ((rfl | rfl) | rfl) | rfl <;> decide
  all_goals decide

theorem Ends.stopsDigits (h : Ends rest) : StopsDigits rest := fun b hb => (h.head?_cases b hb).1

theorem readDigits_append (h : Digits digits) (hrest : StopsDigits rest) :
    readDigits ended (digits ++ rest) = .ok (digits, rest) := by
  obtain ⟨hne, hdigits⟩ := h
  obtain ⟨b, more, rfl⟩ := List.exists_cons_of_ne_nil hne
  have hmore : ∀ c ∈ more, Ascii.isDigit c = true := fun c hc =>
    hdigits c (List.mem_cons_of_mem b hc)
  have hstop : rest.takeWhile Ascii.isDigit = [] ∧ rest.dropWhile Ascii.isDigit = rest := by
    cases rest with
    | nil => exact ⟨rfl, rfl⟩
    | cons c after => simp [hrest c rfl]
  rw [List.cons_append, readDigits, if_pos (hdigits b List.mem_cons_self),
    List.takeWhile_append_of_pos hmore, List.dropWhile_append_of_pos hmore, hstop.1, hstop.2,
    List.append_nil]

theorem readWhole_append (h : WholeDigits digits) (hrest : StopsDigits rest) :
    readWhole ended (digits ++ rest) = .ok (digits, rest) := by
  obtain ⟨hdigits, hzero⟩ := h
  unfold readWhole
  split
  · rename_i after heq
    obtain ⟨b, more, rfl⟩ := List.exists_cons_of_ne_nil hdigits.1
    obtain ⟨rfl, hafter⟩ := List.cons.inj heq
    obtain rfl : more = [] := (List.cons.inj (hzero rfl)).2
    obtain rfl : rest = after := hafter
    have hstop : Ascii.isDigit (rest.headD Ascii.space) = false := by
      cases rest with
      | nil => rfl
      | cons c after => exact hrest c rfl
    rw [hstop]
    rfl
  · exact readDigits_append hdigits hrest

theorem readFraction_append {fraction : Option Bytes} (h : FractionText fraction text)
    (hrest : StopsDigits rest) (hpoint : ∀ b ∈ rest.head?, b ≠ Ascii.point) :
    readFraction ended (text ++ rest) = .ok (fraction, rest) := by
  cases h with
  | none =>
      unfold readFraction
      split
      · rename_i heq
        cases heq
        exact absurd rfl (hpoint Ascii.point rfl)
      · rfl
  | @some digits hdigits =>
      rw [List.cons_append]
      unfold readFraction
      split
      · rename_i heq
        cases heq
        rw [readDigits_append hdigits hrest]
      · rename_i hother
        exact absurd rfl (hother (digits ++ rest))

theorem readSign_append {negative : Bool} {sign : Bytes} (h : SignText negative sign)
    (hdigits : Digits digits) (rest : Bytes) :
    readSign (sign ++ (digits ++ rest)) = (negative, digits ++ rest) := by
  cases h with
  | none =>
      obtain ⟨b, more, rfl⟩ := List.exists_cons_of_ne_nil hdigits.1
      have hdigit := hdigits.2 b List.mem_cons_self
      rw [List.nil_append, List.cons_append]
      unfold readSign
      split
      · rename_i heq
        cases heq
        cases hdigit
      · rename_i heq
        cases heq
        cases hdigit
      · rfl
  | plus => rfl
  | minus => rfl

theorem readExponent_append {exponent : Option (Bool × Bytes)} (h : ExponentText exponent text)
    (hrest : Ends rest) : readExponent ended (text ++ rest) = .ok (exponent, rest) := by
  cases h with
  | none =>
      cases rest with
      | nil => rfl
      | cons b after =>
          obtain ⟨-, -, hlower, hupper⟩ := hrest.head?_cases b rfl
          simp [readExponent, hlower, hupper]
  | @some letter negative sign digits hletter hsign hdigits =>
      have hsigned := readSign_append hsign hdigits rest
      have hmarks : (letter = 0x65 || letter = 0x45) = true := by simpa using hletter
      rw [List.cons_append, List.append_assoc, readExponent, if_pos hmarks, hsigned,
        readDigits_append hdigits hrest.stopsDigits]

/-- What follows the digits of a whole number does not go on with them. -/
theorem stopsDigits_behind_whole {fraction : Option Bytes} {exponent : Option (Bool × Bytes)}
    {fractionText exponentText : Bytes} (hfraction : FractionText fraction fractionText)
    (hexponent : ExponentText exponent exponentText) (hrest : Ends rest) :
    StopsDigits (fractionText ++ (exponentText ++ rest)) ∧
      StopsDigits (exponentText ++ rest) ∧
      ∀ b ∈ (exponentText ++ rest).head?, b ≠ Ascii.point := by
  have hbehind : ∀ b ∈ (exponentText ++ rest).head?,
      Ascii.isDigit b = false ∧ b ≠ Ascii.point := by
    cases hexponent with
    | none => exact fun b hb => ⟨(hrest.head?_cases b hb).1, (hrest.head?_cases b hb).2.1⟩
    | some hletter =>
        intro b hb
        obtain rfl := Option.some.inj hb
        rcases hletter with rfl | rfl <;> decide
  refine ⟨?_, fun b hb => (hbehind b hb).1, fun b hb => (hbehind b hb).2⟩
  cases hfraction with
  | none => exact fun b hb => (hbehind b hb).1
  | some =>
      intro b hb
      obtain rfl := Option.some.inj hb
      rfl

/-- A written number is read to its end. -/
theorem readNumeral_append (h : NumeralText numeral text) (hrest : Ends rest) :
    readNumeral ended (text ++ rest) = .ok (numeral, rest) := by
  cases h with
  | @mk negative whole fractionText exponentText fraction exponent hwhole hfraction hexponent =>
      obtain ⟨hstops, hstops', hpoint⟩ := stopsDigits_behind_whole hfraction hexponent hrest
      have hunsigned : readUnsignedNumeral ended negative
          (whole ++ (fractionText ++ (exponentText ++ rest))) =
            .ok (⟨negative, whole, fraction, exponent⟩, rest) := by
        simp only [readUnsignedNumeral, readWhole_append hwhole hstops,
          readFraction_append hfraction hstops' hpoint, readExponent_append hexponent hrest]
      cases negative with
      | true =>
          simp only [if_true, List.cons_append, List.nil_append, List.append_assoc]
          exact hunsigned
      | false =>
          obtain ⟨b, more, rfl, hdigit⟩ := hwhole.eq_cons
          simp only [Bool.false_eq_true, if_false, List.nil_append, List.append_assoc]
          unfold readNumeral
          split
          · rename_i heq
            cases heq
            cases hdigit
          · exact hunsigned

/-! ### Decimal digits -/

/-- The digits that a number is written with. -/
def decimal (n : Nat) : Bytes := Utf8.encode (toString n)

theorem utf8EncodeChar_digitChar :
    ∀ d < 10, String.utf8EncodeChar (Nat.digitChar d) = [UInt8.ofNat (0x30 + d)] := by
  decide

theorem isDigit_ofNat : ∀ d < 10, Ascii.isDigit (UInt8.ofNat (0x30 + d)) = true := by
  decide

theorem digitValue_ofNat : ∀ d < 10, Ascii.digitValue (UInt8.ofNat (0x30 + d)) = d := by
  decide

/-- A digit is written as its value says. -/
theorem ofNat_digitValue {b : UInt8} (h : Ascii.isDigit b = true) :
    Ascii.digitValue b < 10 ∧ b = UInt8.ofNat (0x30 + Ascii.digitValue b) := by
  simp only [Ascii.isDigit, Bool.and_eq_true, decide_eq_true_eq, UInt8.le_iff_toNat_le] at h
  have hlow : 0x30 ≤ b.toNat := h.1
  have hhigh : b.toNat ≤ 0x39 := h.2
  have hvalue : 0x30 + Ascii.digitValue b = b.toNat := by
    unfold Ascii.digitValue
    omega
  refine ⟨by omega, ?_⟩
  rw [hvalue, UInt8.ofNat_toNat]

theorem decimal_eq_flatMap (n : Nat) :
    decimal n = (Nat.toDigits 10 n).flatMap String.utf8EncodeChar := by
  rw [decimal, Utf8.encode_eq_flatMap, Nat.toString_eq_repr, Nat.toList_repr]

theorem decimal_of_lt (h : n < 10) : decimal n = [UInt8.ofNat (0x30 + n)] := by
  rw [decimal_eq_flatMap, Nat.toDigits_of_lt_base h, List.flatMap_singleton,
    utf8EncodeChar_digitChar n h]

theorem decimal_of_le (h : 10 ≤ n) :
    decimal n = decimal (n / 10) ++ [UInt8.ofNat (0x30 + n % 10)] := by
  rw [decimal_eq_flatMap, decimal_eq_flatMap, Nat.toDigits_of_base_le (by omega) h,
    List.flatMap_append, List.flatMap_singleton,
    utf8EncodeChar_digitChar (n % 10) (Nat.mod_lt n (Nat.succ_pos 9))]

/-- The digits of a positive number do not begin with a zero. -/
theorem head?_decimal (hpos : 0 < n) :
    ∃ b, (decimal n).head? = some b ∧ b ≠ Ascii.zero := by
  induction n using Nat.strongRecOn with
  | ind n ih =>
      by_cases hlt : n < 10
      · refine ⟨_, by rw [decimal_of_lt hlt]; rfl, fun hzero => ?_⟩
        have hvalue := digitValue_ofNat n hlt
        rw [hzero] at hvalue
        exact absurd hvalue.symm (Nat.pos_iff_ne_zero.mp hpos)
      · have hle : 10 ≤ n := Nat.le_of_not_lt hlt
        obtain ⟨b, hb, hne⟩ := ih (n / 10) (by omega) (by omega)
        refine ⟨b, ?_, hne⟩
        rw [decimal_of_le hle, List.head?_append, hb]
        rfl

theorem digits_decimal (n : Nat) : Digits (decimal n) := by
  induction n using Nat.strongRecOn with
  | ind n ih =>
      by_cases hlt : n < 10
      · rw [decimal_of_lt hlt]
        refine ⟨List.cons_ne_nil _ _, fun b hb => ?_⟩
        rw [List.mem_singleton.mp hb]
        exact isDigit_ofNat n hlt
      · have hle : 10 ≤ n := Nat.le_of_not_lt hlt
        obtain ⟨-, hfront⟩ := ih (n / 10) (by omega)
        rw [decimal_of_le hle]
        refine ⟨by simp, fun b hb => ?_⟩
        rcases List.mem_append.mp hb with hb | hb
        · exact hfront b hb
        · rw [List.mem_singleton.mp hb]
          exact isDigit_ofNat (n % 10) (Nat.mod_lt n (Nat.succ_pos 9))

theorem wholeDigits_decimal (n : Nat) : WholeDigits (decimal n) := by
  refine ⟨digits_decimal n, fun hzero => ?_⟩
  rcases Nat.eq_zero_or_pos n with rfl | hpos
  · exact decimal_of_lt (Nat.succ_pos 9)
  · obtain ⟨b, hb, hne⟩ := head?_decimal hpos
    rw [hb] at hzero
    exact absurd (Option.some.inj hzero) hne

theorem numeralText_decimal (n : Nat) :
    NumeralText ⟨false, decimal n, none, none⟩ (decimal n) := by
  have h := @NumeralText.mk false _ _ _ _ _ (wholeDigits_decimal n) .none .none
  simpa using h

/-! ### Values of digits -/

/-- Digits that all fit are followed by whatever comes next. -/
theorem gather_append {value total : Nat} (h : gather limit value digits = (total, []))
    (rest : Bytes) : gather limit value (digits ++ rest) = gather limit total rest := by
  induction digits generalizing value with
  | nil =>
      cases h
      rfl
  | cons d more ih =>
      simp only [List.cons_append, gather] at h ⊢
      split at h
      · rename_i hfits
        rw [if_pos hfits]
        exact ih h
      · cases h

/-- If the last digit fits, so did all before it. -/
theorem gather_concat {value total : Nat} {d : UInt8}
    (h : gather limit value (digits ++ [d]) = (total, [])) :
    ∃ front, gather limit value digits = (front, []) ∧
      front * 10 + Ascii.digitValue d = total ∧ total ≤ limit := by
  induction digits generalizing value with
  | nil =>
      simp only [List.nil_append, gather] at h
      split at h
      · rename_i hfits
        cases h
        exact ⟨value, rfl, rfl, hfits⟩
      · cases h
  | cons c more ih =>
      simp only [List.cons_append, gather] at h ⊢
      split at h
      · rename_i hfits
        rw [if_pos hfits]
        exact ih h
      · cases h

/-- The digits of a number that fits are gathered to it. -/
theorem gather_decimal (h : n ≤ limit) : gather limit 0 (decimal n) = (n, []) := by
  induction n using Nat.strongRecOn with
  | ind n ih =>
      by_cases hlt : n < 10
      · simp only [decimal_of_lt hlt, gather, digitValue_ofNat n hlt, Nat.zero_mul, Nat.zero_add,
          if_pos h]
      · have hle : 10 ≤ n := Nat.le_of_not_lt hlt
        have hfront := ih (n / 10) (by omega) (by omega)
        have hlast := digitValue_ofNat (n % 10) (Nat.mod_lt n (Nat.succ_pos 9))
        have hsplit : n / 10 * 10 + n % 10 = n := by omega
        rw [decimal_of_le hle, gather_append hfront]
        simp only [gather, hlast, hsplit, if_pos h]

/-- Digits that are gathered to a number are the digits of it. -/
theorem decimal_of_gather (h : WholeDigits digits) (hgather : gather limit 0 digits = (n, [])) :
    digits = decimal n ∧ n ≤ limit := by
  induction digits using List.reverseRecOn generalizing n with
  | nil => exact absurd rfl h.1.1
  | append_singleton front d ih =>
      obtain ⟨hdigits, hzero⟩ := h
      obtain ⟨hvalue, hd⟩ := ofNat_digitValue (hdigits.2 d (by simp))
      obtain ⟨value, hfront, rfl, hle⟩ := gather_concat hgather
      refine ⟨?_, hle⟩
      rcases List.eq_nil_or_concat front with rfl | ⟨before, last, hconcat⟩
      · cases hfront
        rw [Nat.zero_mul, Nat.zero_add, decimal_of_lt hvalue, ← hd]
        rfl
      · have hne : front ≠ [] := by simp [hconcat]
        have hhead : (front ++ [d]).head? = front.head? := by simp [hconcat]
        have hnonzero : front.head? ≠ some Ascii.zero := by
          intro hfirst
          have hlength := congrArg List.length (hzero (hhead.trans hfirst))
          simp [hconcat] at hlength
        have hwhole : WholeDigits front :=
          ⟨⟨hne, fun b hb => hdigits.2 b (List.mem_append_left _ hb)⟩,
            fun hfirst => absurd hfirst hnonzero⟩
        obtain ⟨hdecimal, -⟩ := ih hwhole hfront
        have hpos : 0 < value := by
          refine Nat.pos_of_ne_zero ?_
          rintro rfl
          rw [hdecimal] at hnonzero
          exact hnonzero rfl
        rw [decimal_of_le (by omega), show (value * 10 + Ascii.digitValue d) / 10 = value by omega,
          show (value * 10 + Ascii.digitValue d) % 10 = Ascii.digitValue d by omega, ← hd,
          ← hdecimal]

/-! ### What a number stands for -/

theorem number_decimal (h : n ≤ maxUnsigned) (rest : Bytes) :
    (Numeral.mk false (decimal n) none none).number rest = .ok (.unsigned n) := by
  simp only [Numeral.number, gather_decimal h]
  rfl

/-- A number that is read by its bits in binary64 is no unsigned integer. -/
theorem floatNumber_ne_unsigned {negative : Bool} {digits : Nat} {power : Int}
    {exponent : Option (Bool × Bytes)} :
    floatNumber negative digits power exponent rest ≠ .ok (.unsigned n) := by
  unfold floatNumber signed
  dsimp only
  split
  · split <;> simp
  · split <;> simp

/-- What stands for an unsigned integer has no sign, no fraction and no exponent. -/
theorem number_eq_unsigned (h : numeral.number rest = .ok (.unsigned n)) :
    ∃ digits, numeral = ⟨false, digits, none, none⟩ ∧ gather maxUnsigned 0 digits = (n, []) := by
  obtain ⟨negative, whole, fraction, exponent⟩ := numeral
  unfold Numeral.number at h
  cases hgather : gather maxUnsigned 0 whole with
  | mk value left =>
      simp only [hgather] at h
      split at h
      · cases negative with
        | true =>
            simp only [Bool.not_true, Bool.false_eq_true, if_false] at h
            split at h <;> cases h
        | false =>
            cases h
            exact ⟨whole, rfl, hgather⟩
      · exact absurd h floatNumber_ne_unsigned

theorem le_maxUnsigned (n : UInt64) : n.toNat ≤ maxUnsigned := Nat.le_of_lt_succ n.toNat_lt

theorem readNumber_decimal (n : UInt64) (hrest : Ends rest) :
    readNumber (decimal n.toNat ++ rest) = .ok (.unsigned n.toNat, rest) := by
  simp only [readNumber, readNumeral_append (numeralText_decimal n.toNat) hrest,
    number_decimal (le_maxUnsigned n)]

/-- What is read as an unsigned integer is written as one. -/
theorem exists_decimal (h : NumeralText numeral text) (hrest : Ends rest) {after : Bytes}
    (hread : readNumber (text ++ rest) = .ok (.unsigned n, after)) :
    ∃ value : UInt64, text = decimal value.toNat := by
  simp only [readNumber, readNumeral_append h hrest] at hread
  cases hnumber : numeral.number rest with
  | error failure => simp [hnumber] at hread
  | ok number =>
      simp only [hnumber] at hread
      cases hread
      obtain ⟨digits, rfl, hgather⟩ := number_eq_unsigned hnumber
      cases h with
      | mk hwhole hfraction hexponent =>
          cases hfraction
          cases hexponent
          obtain ⟨rfl, hle⟩ := decimal_of_gather hwhole hgather
          have hvalue : (UInt64.ofNat n).toNat = n := by
            rw [UInt64.toNat_ofNat']
            exact Nat.mod_eq_of_lt (Nat.lt_succ_of_le hle)
          refine ⟨UInt64.ofNat n, ?_⟩
          rw [hvalue]
          simp

/-! ### Wanted numbers -/

theorem encode_null : Utf8.encode "null" = nullLetter :: nullRest := by decide

/-- A value that is no number begins as no number does, and where it begins as a null, it is one. -/
theorem Text.value_cases (h : Text .value text) :
    (∃ numeral, NumeralText numeral text) ∨
      ∃ b more, text = b :: more ∧ beginsNumber b = false ∧
        (b = nullLetter → text = Utf8.encode "null") := by
  have hopen : Ascii.quote ≠ nullLetter ∧ Ascii.openBracket ≠ nullLetter ∧
      Ascii.openBrace ≠ nullLetter := by
    decide
  cases h with
  | word hword =>
      refine Or.inr ⟨_, _, rfl, (word?_first hword).2.1, ?_⟩
      rintro rfl
      cases hword
      exact encode_null.symm
  | string => exact Or.inr ⟨_, _, rfl, rfl, fun heq => absurd heq hopen.1⟩
  | number hnumeral => exact Or.inl ⟨_, hnumeral⟩
  | emptyList => exact Or.inr ⟨_, _, rfl, rfl, fun heq => absurd heq hopen.2.1⟩
  | list => exact Or.inr ⟨_, _, rfl, rfl, fun heq => absurd heq hopen.2.1⟩
  | object hobject =>
      cases hobject with
      | emptyObject => exact Or.inr ⟨_, _, rfl, rfl, fun heq => absurd heq hopen.2.2⟩
      | members => exact Or.inr ⟨_, _, rfl, rfl, fun heq => absurd heq hopen.2.2⟩

variable {expected : String}

/-- Where an unsigned integer is wanted, one is read. -/
theorem readUnsigned_decimal (n : UInt64) (hblanks : Blanks before) (hrest : Ends rest) :
    readUnsigned expected (before ++ (decimal n.toNat ++ rest)) = .ok (n, rest) := by
  obtain ⟨b, more, hcons, hbegins⟩ := (numeralText_decimal n.toNat).eq_cons
  have hblank := isBlank_of_beginsNumber hbegins
  have hread := readNumber_decimal n hrest
  rw [hcons] at hread ⊢
  simp only [List.cons_append] at hread ⊢
  simp only [readUnsigned, skipBlanks_append_cons hblanks hblank, hbegins, if_true, hread,
    UInt64.ofNat_toNat]

/-- Where an unsigned integer is wanted, every other value is refused. -/
theorem readUnsigned_refuses (h : Text .value text) (hother : ∀ n : UInt64, text ≠ decimal n.toNat)
    (hblanks : Blanks before) (hrest : Ends rest) :
    ∃ failure, readUnsigned expected (before ++ (text ++ rest)) = .error failure := by
  obtain ⟨b, more, rfl, hblank, -⟩ := h.eq_cons
  have hskip := skipBlanks_append_cons hblanks hblank (more ++ rest)
  rw [← List.cons_append] at hskip
  unfold readUnsigned
  rw [hskip]
  rcases h.value_cases with ⟨numeral, hnumeral⟩ | ⟨c, tail, hcons, hbegins, -⟩
  · obtain ⟨c, tail, hcons, hbegins⟩ := hnumeral.eq_cons
    cases hcons
    simp only [List.cons_append, hbegins, if_true]
    split
    · exact ⟨_, rfl⟩
    · rename_i value after hread
      obtain ⟨n, heq⟩ := exists_decimal hnumeral hrest hread
      exact absurd heq (hother n)
    · exact ⟨_, rfl⟩
    · exact ⟨_, rfl⟩
  · cases hcons
    simp only [List.cons_append, hbegins, Bool.false_eq_true, if_false]
    exact ⟨_, rfl⟩

/-- Where an unsigned integer or a null is wanted, an integer is read. -/
theorem readUnsigned?_decimal (n : UInt64) (hblanks : Blanks before) (hrest : Ends rest) :
    readUnsigned? expected (before ++ (decimal n.toNat ++ rest)) = .ok (some n, rest) := by
  obtain ⟨b, more, hcons, hbegins⟩ := (numeralText_decimal n.toNat).eq_cons
  have hblank := isBlank_of_beginsNumber hbegins
  have hread : readUnsigned expected (decimal n.toNat ++ rest) = .ok (n, rest) :=
    readUnsigned_decimal n .nil hrest
  rw [hcons] at hread ⊢
  have hletter : b ≠ nullLetter := beginsNumber_ne hbegins rfl
  simp only [List.cons_append] at hread ⊢
  simp only [readUnsigned?, skipBlanks_append_cons hblanks hblank, if_neg hletter, hread]

/-- Where an unsigned integer or a null is wanted, a null is read. -/
theorem readUnsigned?_null (hblanks : Blanks before) (rest : Bytes) :
    readUnsigned? expected (before ++ (Utf8.encode "null" ++ rest)) = .ok (none, rest) := by
  have hword : readWord nullRest (nullRest ++ rest) = .ok rest := rfl
  have hskip : skipBlanks (before ++ nullLetter :: (nullRest ++ rest)) =
      nullLetter :: (nullRest ++ rest) := skipBlanks_append_cons hblanks rfl _
  rw [encode_null, List.cons_append]
  simp only [readUnsigned?, hskip, if_true, hword]

/-- Where an unsigned integer or a null is wanted, every other value is refused. -/
theorem readUnsigned?_refuses (h : Text .value text) (hother : ∀ n : UInt64, text ≠ decimal n.toNat)
    (hnull : text ≠ Utf8.encode "null") (hblanks : Blanks before) (hrest : Ends rest) :
    ∃ failure, readUnsigned? expected (before ++ (text ++ rest)) = .error failure := by
  obtain ⟨failure, hfailure⟩ : ∃ failure,
      readUnsigned expected (text ++ rest) = .error failure :=
    readUnsigned_refuses h hother .nil hrest
  obtain ⟨b, more, rfl, hblank, -⟩ := h.eq_cons
  have hletter : b ≠ nullLetter := by
    rintro rfl
    rcases h.value_cases with ⟨numeral, hnumeral⟩ | ⟨c, tail, hcons, -, htext⟩
    · obtain ⟨c, tail, hcons, hbegins⟩ := hnumeral.eq_cons
      cases hcons
      exact beginsNumber_ne hbegins rfl rfl
    · cases hcons
      exact hnull (htext rfl)
  simp only [List.cons_append] at hfailure ⊢
  refine ⟨failure, ?_⟩
  simp only [readUnsigned?, skipBlanks_append_cons hblanks hblank, if_neg hletter, hfailure]

end AccessControl.Json
