import AccessControl.Proofs.Json.Skipping
import AccessControl.Verifier.ConfigDocument

/-!
Documents of configurations lie over the default.

A member is accepted if its name is a text and its value, where the name is the key of a field, is one
that the field admits. Members that are all accepted give their values to the fields they name
(`Gains`), and the configuration is the default with these values in place of its own (`Overlaid`).
One member that is not accepted makes the document a failure, wherever it stands.

* `readMembers_written`: one member. `readMembers_members`: all members of an object, in any order and
  among others.
* `ofDocument_of_object`: whole documents.
* `objectText_documentOf`: what is written for a configuration is a document of it.

Main statement: `ofDocument_overlays_default`.
-/

namespace AccessControl.Config

open Json

/-! ### Fields and their values -/

/-- What a configuration holds for a field. Nothing stands for no sweep. -/
def value (c : Config) : Field → Option UInt64
  | .maxEntries => some c.maxEntries
  | .initialCapacity => some c.initialCapacity
  | .idleTimeout => some c.idleTimeoutMs
  | .sweepInterval => c.sweepIntervalMs

/-- How the value of a field is written. -/
def literal : Option UInt64 → Bytes
  | some n => decimal n.toNat
  | none => Utf8.encode "null"

/-- The values that a field may be given: unsigned integers of 64 bits, and for the sweep interval
also null. -/
def Field.Admits (field : Field) (text : Bytes) : Prop :=
  (∃ n : UInt64, text = literal (some n)) ∨ (field = .sweepInterval ∧ text = literal none)

/-- A configuration is known by its values. -/
theorem ext_value {c d : Config} (h : ∀ field, c.value field = d.value field) : c = d := by
  have hmax := Option.some.inj (h .maxEntries)
  have hinitial := Option.some.inj (h .initialCapacity)
  have hidle := Option.some.inj (h .idleTimeout)
  have hsweep := h .sweepInterval
  cases c
  cases d
  simp only [value] at hmax hinitial hidle hsweep
  subst hmax hinitial hidle hsweep
  rfl

theorem encode_fieldText (c : Config) (field : Field) :
    Utf8.encode (c.fieldText field) = literal (c.value field) := by
  cases field with
  | maxEntries => rfl
  | initialCapacity => rfl
  | idleTimeout => rfl
  | sweepInterval =>
      simp only [fieldText, value]
      cases c.sweepIntervalMs <;> rfl

/-- Every value of a configuration is one that its field admits. -/
theorem admits_value (c : Config) (field : Field) : field.Admits (literal (c.value field)) := by
  cases field with
  | maxEntries => exact Or.inl ⟨_, rfl⟩
  | initialCapacity => exact Or.inl ⟨_, rfl⟩
  | idleTimeout => exact Or.inl ⟨_, rfl⟩
  | sweepInterval =>
      simp only [value]
      cases c.sweepIntervalMs with
      | none => exact Or.inr ⟨rfl, rfl⟩
      | some n => exact Or.inl ⟨n, rfl⟩

theorem text_literal (value : Option UInt64) : Text .value (literal value) := by
  cases value with
  | none =>
      have hnull : word? nullLetter = some (nullRest, .null) := rfl
      rw [literal, encode_null]
      exact .word hnull
  | some n => exact .number (numeralText_decimal n.toNat)

theorem decimal_ne_null (n : Nat) : decimal n ≠ Utf8.encode "null" := by
  intro hsame
  have hletter : nullLetter ∈ decimal n := by
    rw [hsame, encode_null]
    exact List.mem_cons_self
  cases (digits_decimal n).2 nullLetter hletter

/-- No two values are written alike. -/
theorem literal_injective {v w : Option UInt64} (h : literal v = literal w) : v = w := by
  cases v with
  | none =>
      cases w with
      | none => rfl
      | some n => exact absurd h.symm (decimal_ne_null n.toNat)
  | some n =>
      cases w with
      | none => exact absurd h (decimal_ne_null n.toNat)
      | some m =>
          have hsame : decimal n.toNat = decimal m.toNat := h
          have hgather := gather_decimal (le_maxUnsigned n)
          rw [hsame, gather_decimal (le_maxUnsigned m)] at hgather
          exact congrArg some (UInt64.toNat_inj.mp (Prod.mk.inj hgather).1.symm)

/-! ### What has been given -/

/-- What has been given for a field. -/
def Overlay.get (o : Overlay) : Field → Option (Option UInt64)
  | .maxEntries => o.maxEntries.map some
  | .initialCapacity => o.initialCapacity.map some
  | .idleTimeout => o.idleTimeoutMs.map some
  | .sweepInterval => o.sweepIntervalMs

theorem Overlay.has_eq (o : Overlay) (field : Field) : o.has field = (o.get field).isSome := by
  cases field <;> simp [has, get]

theorem Overlay.value_apply (o : Overlay) (c : Config) (field : Field) :
    (o.apply c).value field = (o.get field).getD (c.value field) := by
  cases field with
  | maxEntries => cases hgiven : o.maxEntries <;> simp [apply, get, value, hgiven]
  | initialCapacity => cases hgiven : o.initialCapacity <;> simp [apply, get, value, hgiven]
  | idleTimeout => cases hgiven : o.idleTimeoutMs <;> simp [apply, get, value, hgiven]
  | sweepInterval => rfl

/-- What has been given, with a value for one more field. -/
def Overlay.put (o : Overlay) (field : Field) (value : Option UInt64) : Overlay :=
  match field with
  | .maxEntries => { o with maxEntries := value }
  | .initialCapacity => { o with initialCapacity := value }
  | .idleTimeout => { o with idleTimeoutMs := value }
  | .sweepInterval => { o with sweepIntervalMs := some value }

theorem Overlay.get_put_self (o : Overlay) {field : Field} {value : Option UInt64}
    (h : value = none → field = .sweepInterval) : (o.put field value).get field = some value := by
  cases value with
  | none =>
      obtain rfl := h rfl
      rfl
  | some n => cases field <;> rfl

theorem Overlay.get_put_of_ne (o : Overlay) {field other : Field} (value : Option UInt64)
    (h : other ≠ field) : (o.put field value).get other = o.get other := by
  cases field <;> cases other <;> first | rfl | exact absurd rfl h

/-! ### Members -/

/-- The name of a member is the key of a field. -/
def Field.NamedBy (field : Field) (m : Member) : Prop := Spells m.name (Utf8.encode field.key)

/-- The name of a member is a text; and if it is the key of a field, the field admits the value. -/
def Accepted (m : Member) : Prop :=
  (∃ name, Spells m.name name) ∧ ∀ field : Field, field.NamedBy m → field.Admits m.value

/-- No field is named by two members. -/
def Once (members : List Member) : Prop :=
  members.Pairwise fun m n => ∀ field : Field, field.NamedBy m → ¬ field.NamedBy n

/-- The configuration is the default, with the values that are given in place of its own. -/
structure Overlaid (c : Config) (members : List Member) : Prop where
  given : ∀ m ∈ members, ∀ field : Field, field.NamedBy m → m.value = literal (c.value field)
  others : ∀ field : Field, (∀ m ∈ members, ¬ field.NamedBy m) →
    c.value field = Config.default.value field

/-- What has been given after some members: their values, and what was given before. -/
structure Gains (o : Overlay) (members : List Member) (p : Overlay) : Prop where
  given : ∀ m ∈ members, ∀ field : Field, field.NamedBy m →
    ∃ value, m.value = literal value ∧ p.get field = some value
  others : ∀ field : Field, (∀ m ∈ members, ¬ field.NamedBy m) → p.get field = o.get field

variable {o p q : Overlay} {m : Member} {members : List Member} {field : Field}
  {before between after padded text rest : Bytes}

theorem ofKey?_eq_some_iff {key : Bytes} :
    Field.ofKey? key = some field ↔ key = Utf8.encode field.key := by
  constructor
  · intro h
    have hkey := List.find?_some h
    exact (beq_iff_eq.mp hkey).symm
  · rintro rfl
    cases field <;> rfl

/-- A name is the key of no two fields. -/
theorem Field.NamedBy.unique {other : Field} (h : field.NamedBy m) (h' : other.NamedBy m) :
    other = field := by
  have hother := ofKey?_eq_some_iff.mpr (Spells.unique h h')
  rw [ofKey?_eq_some_iff.mpr rfl] at hother
  exact (Option.some.inj hother).symm

/-- Members leave only one configuration. -/
theorem Overlaid.unique {c d : Config} (h : Overlaid c members) (h' : Overlaid d members) :
    c = d := by
  refine ext_value fun field => ?_
  by_cases hnamed : ∃ m ∈ members, field.NamedBy m
  · obtain ⟨m, hm, hnames⟩ := hnamed
    exact literal_injective ((h.given m hm field hnames).symm.trans (h'.given m hm field hnames))
  · have hfree : ∀ m ∈ members, ¬ field.NamedBy m := fun m hm hnames => hnamed ⟨m, hm, hnames⟩
    exact (h.others field hfree).trans (h'.others field hfree).symm

theorem Gains.nil (o : Overlay) : Gains o [] o :=
  ⟨fun _ hm => absurd hm List.not_mem_nil, fun _ _ => rfl⟩

/-- A member gives its value to the field it names. -/
theorem Gains.put (o : Overlay) {value : Option UInt64} (hnamed : field.NamedBy m)
    (hvalue : m.value = literal value) (hnull : value = none → field = .sweepInterval) :
    Gains o [m] (o.put field value) := by
  refine ⟨fun n hn other hother => ?_, fun other hother => ?_⟩
  · obtain rfl := List.mem_singleton.mp hn
    obtain rfl := hnamed.unique hother
    exact ⟨value, hvalue, o.get_put_self hnull⟩
  · refine o.get_put_of_ne value ?_
    rintro rfl
    exact hother m (List.mem_singleton_self m) hnamed

/-- A member that names no field gives nothing. -/
theorem Gains.skip (o : Overlay) (h : ∀ field : Field, ¬ field.NamedBy m) : Gains o [m] o := by
  refine ⟨fun n hn field hnamed => ?_, fun _ _ => rfl⟩
  obtain rfl := List.mem_singleton.mp hn
  exact absurd hnamed (h field)

/-- What one member gives leaves the fields of the others free. -/
theorem Gains.free (h : Gains o [m] p) (honce : Once (m :: members))
    (hfree : ∀ n ∈ members, ∀ field : Field, field.NamedBy n → o.has field = false) :
    ∀ n ∈ members, ∀ field : Field, field.NamedBy n → p.has field = false := by
  intro n hn field hnamed
  obtain ⟨hfirst, -⟩ := List.pairwise_cons.mp honce
  have hother : ∀ k ∈ [m], ¬ field.NamedBy k := by
    intro k hk hk'
    obtain rfl := List.mem_singleton.mp hk
    exact hfirst n hn field hk' hnamed
  rw [Overlay.has_eq, h.others field hother, ← Overlay.has_eq]
  exact hfree n hn field hnamed

/-- One member and then others. -/
theorem Gains.cons (h : Gains o [m] p) (hrest : Gains p members q) (honce : Once (m :: members)) :
    Gains o (m :: members) q := by
  obtain ⟨hfirst, -⟩ := List.pairwise_cons.mp honce
  refine ⟨fun n hn field hnamed => ?_, fun field hfree => ?_⟩
  · rcases List.mem_cons.mp hn with rfl | hn
    · obtain ⟨value, hvalue, hget⟩ := h.given n (List.mem_singleton_self n) field hnamed
      refine ⟨value, hvalue, ?_⟩
      rw [hrest.others field fun other hother => hfirst other hother field hnamed, hget]
    · exact hrest.given n hn field hnamed
  · rw [hrest.others field fun n hn => hfree n (List.mem_cons_of_mem m hn)]
    exact h.others field fun n hn => List.mem_singleton.mp hn ▸ hfree m List.mem_cons_self

/-- What has been given lies over the default. -/
theorem Gains.overlaid (h : Gains .empty members p) :
    Overlaid (p.apply Config.default) members := by
  refine ⟨fun m hm field hnamed => ?_, fun field hfree => ?_⟩
  · obtain ⟨value, hvalue, hget⟩ := h.given m hm field hnamed
    rw [hvalue, Overlay.value_apply, hget]
    rfl
  · have hnone : (Overlay.empty).get field = none := by cases field <;> rfl
    rw [Overlay.value_apply, h.others field hfree, hnone]
    rfl

/-! ### Reading a value -/

/-- A value that is admitted is given to its field. -/
theorem readField_literal (o : Overlay) {value : Option UInt64}
    (hnull : value = none → field = .sweepInterval) (hbefore : Blanks before) (hrest : Ends rest) :
    readField o field (before ++ (literal value ++ rest)) = .ok (o.put field value, rest) := by
  cases value with
  | none =>
      obtain rfl := hnull rfl
      simp only [readField, literal, readUnsigned?_null hbefore, Overlay.put]
  | some n =>
      cases field with
      | sweepInterval =>
          simp only [readField, literal, readUnsigned?_decimal n hbefore hrest, Overlay.put]
      | _ => simp only [readField, literal, readUnsigned_decimal n hbefore hrest, Overlay.put]

/-- A value that is not admitted is a failure. -/
theorem readField_refuses (o : Overlay) (h : Text .value text) (hrefused : ¬ field.Admits text)
    (hbefore : Blanks before) (hrest : Ends rest) :
    ∃ failure, readField o field (before ++ (text ++ rest)) = .error failure := by
  have hother : ∀ n : UInt64, text ≠ decimal n.toNat := fun n hsame =>
    hrefused (Or.inl ⟨n, hsame⟩)
  by_cases hsweep : field = .sweepInterval
  · subst hsweep
    have hnull : text ≠ Utf8.encode "null" := fun hsame => hrefused (Or.inr ⟨rfl, hsame⟩)
    obtain ⟨failure, hfailure⟩ : ∃ failure, readUnsigned? Field.sweepInterval.expected
        (before ++ (text ++ rest)) = .error failure :=
      readUnsigned?_refuses h hother hnull hbefore hrest
    exact ⟨failure, by simp only [readField, hfailure]⟩
  · obtain ⟨failure, hfailure⟩ : ∃ failure, readUnsigned field.expected
        (before ++ (text ++ rest)) = .error failure :=
      readUnsigned_refuses h hother hbefore hrest
    refine ⟨failure, ?_⟩
    cases field with
    | sweepInterval => exact absurd rfl hsweep
    | _ => simp only [readField, hfailure]

/-! ### Reading a member -/

/-- A member that is accepted gives its value to the field it names, and is skipped if it names
none. -/
theorem readMember_of_accepted (hvalue : Text .value m.value) (h : Accepted m)
    (hfree : ∀ field : Field, field.NamedBy m → o.has field = false) (hbetween : Blanks between)
    (hpadded : Padded m.value padded) (hrest : Ends rest) :
    ∃ p after, Blanks after ∧ Gains o [m] p ∧
      readMember o (m.name ++ Ascii.quote :: (between ++ Ascii.colon :: (padded ++ rest))) =
        .ok (p, after ++ rest) := by
  obtain ⟨⟨name, hname⟩, hadmits⟩ := h
  obtain ⟨before, after, hbefore, hafter, rfl⟩ := hpadded
  have hends : Ends (after ++ rest) := hrest.blanks_append hafter
  simp only [readMember, readString_of_spells hname, List.append_assoc]
  cases hfield : Field.ofKey? name with
  | some field =>
      obtain rfl := ofKey?_eq_some_iff.mp hfield
      have hnamed : field.NamedBy m := hname
      obtain ⟨value, hliteral, hnull⟩ : ∃ value, m.value = literal value ∧
          (value = none → field = .sweepInterval) := by
        rcases hadmits field hnamed with ⟨n, hn⟩ | ⟨hsweep, hnone⟩
        · exact ⟨some n, hn, fun h => absurd h (by simp)⟩
        · exact ⟨none, hnone, fun _ => hsweep⟩
      refine ⟨o.put field value, after, hafter, .put o hnamed hliteral hnull, ?_⟩
      simp only [hfree field hnamed, Bool.false_eq_true, if_false, readColon_append hbetween,
        hliteral, readField_literal o hnull hbefore hends]
  | none =>
      have hstrange : ∀ field : Field, ¬ field.NamedBy m := by
        intro field hnamed
        rw [ofKey?_eq_some_iff.mpr (Spells.unique hname hnamed)] at hfield
        cases hfield
      refine ⟨o, after, hafter, .skip o hstrange, ?_⟩
      simp only [readColon_append hbetween, skipValue_of_value hvalue hbefore hends]

/-- A member that is not accepted is a failure. -/
theorem readMember_of_not_accepted (hname : StringBody m.name) (hvalue : Text .value m.value)
    (h : ¬ Accepted m) (hfree : ∀ field : Field, field.NamedBy m → o.has field = false)
    (hbetween : Blanks between) (hpadded : Padded m.value padded) (hrest : Ends rest) :
    ∃ failure, readMember o (m.name ++ Ascii.quote :: (between ++ Ascii.colon ::
      (padded ++ rest))) = .error failure := by
  rcases spells_or_refused hname with ⟨name, hspells⟩ | hrefused
  · obtain ⟨field, hnamed, hnot⟩ : ∃ field : Field, field.NamedBy m ∧ ¬ field.Admits m.value := by
      by_contra hnone
      refine h ⟨⟨name, hspells⟩, fun field hnamed => ?_⟩
      by_contra hnot
      exact hnone ⟨field, hnamed, hnot⟩
    obtain ⟨before, after, hbefore, hafter, rfl⟩ := hpadded
    obtain ⟨failure, hfailure⟩ :=
      readField_refuses o hvalue hnot hbefore (hrest.blanks_append hafter)
    refine ⟨failure, ?_⟩
    simp only [readMember, readString_of_spells hnamed, ofKey?_eq_some_iff.mpr rfl,
      hfree field hnamed, Bool.false_eq_true, if_false, readColon_append hbetween,
      List.append_assoc, hfailure]
  · obtain ⟨failure, hfailure⟩ := hrefused (between ++ Ascii.colon :: (padded ++ rest))
    exact ⟨failure, by simp only [readMember, hfailure]⟩

/-! ### Reading members -/

theorem nextMember_quote (h : Blanks before) (rest : Bytes) :
    nextMember true (before ++ Ascii.quote :: rest) = .ok (.more rest) := by
  unfold nextMember
  rw [skipBlanks_append_cons h (by rfl)]
  rfl

theorem nextMember_comma (hafter : Blanks after) {inner : Bytes}
    (h : skipBlanks rest = Ascii.quote :: inner) :
    nextMember false (after ++ Ascii.comma :: rest) = nextMember true rest := by
  unfold nextMember
  rw [skipBlanks_append_cons hafter (by rfl), h]
  simp only [h]
  rfl

theorem nextMember_close {first : Bool} (h : Blanks before) (rest : Bytes) :
    nextMember first (before ++ Ascii.closeBrace :: rest) = .ok (.closed rest) := by
  unfold nextMember
  rw [skipBlanks_append_cons h (by rfl)]
  rfl

theorem readMembers_closed {first : Bool} {bytes : Bytes}
    (h : nextMember first bytes = .ok (.closed rest)) :
    readMembers first o bytes = .ok (o, rest) := by
  rw [readMembers]
  split <;> rename_i hnext <;> rw [h] at hnext <;> cases hnext
  rfl

theorem readMembers_more {first : Bool} {bytes : Bytes}
    (h : nextMember first bytes = .ok (.more rest)) :
    readMembers first o bytes =
      (readMember o rest).bind fun read => readMembers false read.1 read.2 := by
  rw [readMembers]
  split <;> rename_i hnext <;> rw [h] at hnext <;> cases hnext
  split <;> rename_i hmember <;> simp only [hmember, Except.bind]

/-- Behind a comma members are read as they are at the beginning. -/
theorem readMembers_comma (hafter : Blanks after) {inner : Bytes}
    (h : skipBlanks rest = Ascii.quote :: inner) :
    readMembers false o (after ++ Ascii.comma :: rest) = readMembers true o rest := by
  have hnext : nextMember true rest = .ok (.more inner) := by
    unfold nextMember
    rw [h]
    rfl
  rw [readMembers_more hnext, readMembers_more ((nextMember_comma hafter h).trans hnext)]

/-- One member, as it is written. -/
theorem readMembers_written (hname : StringBody m.name) (hvalue : Text .value m.value)
    (htext : m.Written text) (hfree : ∀ field : Field, field.NamedBy m → o.has field = false)
    (hrest : Ends rest) :
    (Accepted m → ∃ p after, Blanks after ∧ Gains o [m] p ∧
      readMembers true o (text ++ rest) = readMembers false p (after ++ rest)) ∧
    (¬ Accepted m → ∃ failure, readMembers true o (text ++ rest) = .error failure) := by
  obtain ⟨before, between, padded, hbefore, hbetween, hpadded, rfl⟩ := htext
  simp only [List.append_assoc, List.cons_append]
  rw [readMembers_more (nextMember_quote hbefore _)]
  refine ⟨fun h => ?_, fun h => ?_⟩
  · obtain ⟨p, after, hafter, hgains, hread⟩ :=
      readMember_of_accepted hvalue h hfree hbetween hpadded hrest
    exact ⟨p, after, hafter, hgains, by rw [hread]; rfl⟩
  · obtain ⟨failure, hread⟩ :=
      readMember_of_not_accepted hname hvalue h hfree hbetween hpadded hrest
    exact ⟨failure, by rw [hread]; rfl⟩

/-- The members of an object give their values if they are all accepted; one that is not is a
failure of the whole. -/
theorem readMembers_members (h : Text (.members members) text) (honce : Once members)
    (hfree : ∀ m ∈ members, ∀ field : Field, field.NamedBy m → o.has field = false)
    (rest : Bytes) :
    ((∀ m ∈ members, Accepted m) → ∃ p, Gains o members p ∧
      readMembers true o (text ++ Ascii.closeBrace :: rest) = .ok (p, rest)) ∧
    ((∃ m ∈ members, ¬ Accepted m) → ∃ failure,
      readMembers true o (text ++ Ascii.closeBrace :: rest) = .error failure) := by
  induction members generalizing text o with
  | nil => cases h
  | cons m members ih =>
      have hfreeFirst := hfree m List.mem_cons_self
      cases h with
      | lastMember hname hvalue htext =>
          obtain ⟨haccepted, hrefused⟩ :=
            readMembers_written hname hvalue htext hfreeFirst (Ends.closeBrace rest)
          refine ⟨fun hall => ?_, ?_⟩
          · obtain ⟨p, after, hafter, hgains, hread⟩ := haccepted (hall m List.mem_cons_self)
            exact ⟨p, hgains, hread.trans (readMembers_closed (nextMember_close hafter rest))⟩
          · rintro ⟨n, hn, hnot⟩
            exact hrefused (List.mem_singleton.mp hn ▸ hnot)
      | @moreMembers _ _ written others hname hvalue htext hothers =>
          obtain ⟨inner, hinner⟩ := skipBlanks_members hothers (Ascii.closeBrace :: rest)
          obtain ⟨haccepted, hrefused⟩ := readMembers_written hname hvalue htext hfreeFirst
            (Ends.comma (others ++ Ascii.closeBrace :: rest))
          rw [List.append_assoc, List.cons_append]
          by_cases hm : Accepted m
          · obtain ⟨p, after, hafter, hgains, hread⟩ := haccepted hm
            have hfreeRest := hgains.free honce fun n hn => hfree n (List.mem_cons_of_mem m hn)
            obtain ⟨hall, hsome⟩ := ih hothers (List.pairwise_cons.mp honce).2 hfreeRest
            rw [hread, readMembers_comma hafter hinner]
            refine ⟨fun haccept => ?_, ?_⟩
            · obtain ⟨q, hgainsRest, hreadRest⟩ :=
                hall fun n hn => haccept n (List.mem_cons_of_mem m hn)
              exact ⟨q, hgains.cons hgainsRest honce, hreadRest⟩
            · rintro ⟨n, hn, hnot⟩
              rcases List.mem_cons.mp hn with rfl | hn
              · exact absurd hm hnot
              · exact hsome ⟨n, hn, hnot⟩
          · exact ⟨fun haccept => absurd (haccept m List.mem_cons_self) hm, fun _ => hrefused hm⟩

/-! ### Reading documents -/

/-- An object gives the values of its members, or is a failure. -/
theorem readOverlay_object (h : Text (.object members) text) (honce : Once members)
    (hbefore : Blanks before) (rest : Bytes) :
    ((∀ m ∈ members, Accepted m) → ∃ p, Gains .empty members p ∧
      readOverlay (before ++ (text ++ rest)) = .ok (p, rest)) ∧
    ((∃ m ∈ members, ¬ Accepted m) → ∃ failure,
      readOverlay (before ++ (text ++ rest)) = .error failure) := by
  have hopen : ∀ inner, readOverlay (before ++ Ascii.openBrace :: inner) =
      readMembers true .empty inner := by
    intro inner
    unfold readOverlay
    rw [skipBlanks_append_cons hbefore (by rfl)]
    rfl
  cases h with
  | emptyObject hblanks =>
      simp only [List.cons_append, List.append_assoc, List.nil_append]
      rw [hopen, readMembers_closed (nextMember_close hblanks rest)]
      exact ⟨fun _ => ⟨_, Gains.nil _, rfl⟩, fun ⟨_, hm, _⟩ => absurd hm List.not_mem_nil⟩
  | members hmembers =>
      simp only [List.cons_append, List.append_assoc, List.nil_append]
      rw [hopen]
      refine readMembers_members hmembers honce (fun m _ field _ => ?_) rest
      cases field <;> rfl

/-- A document that is an object is the default under its members, if they are all accepted and what
comes out is valid. -/
theorem ofDocument_of_object {document : String} (h : ObjectText members (Utf8.encode document))
    (honce : Once members) :
    ((∀ m ∈ members, Accepted m) →
      ∃ c, Overlaid c members ∧ ofDocument document = c.validate.map fun _ => c) ∧
    ((∃ m ∈ members, ¬ Accepted m) →
      ∃ error, ofDocument document = .error (.document error)) := by
  obtain ⟨text, htext, before, after, hbefore, hafter, hdocument⟩ := h
  obtain ⟨haccepted, hrefused⟩ := readOverlay_object htext honce hbefore after
  refine ⟨fun hall => ?_, fun hsome => ?_⟩
  · obtain ⟨p, hgains, hread⟩ := haccepted hall
    refine ⟨p.apply Config.default, hgains.overlaid, ?_⟩
    have hoverlay : readDocument readOverlay document = .ok p := by
      simp only [readDocument, hdocument, hread, skipBlanks_of_blanks hafter]
    simp only [ofDocument, hoverlay]
    cases (p.apply Config.default).validate <;> rfl
  · obtain ⟨failure, hread⟩ := hrefused hsome
    refine ⟨failure.locate (Utf8.encode document), ?_⟩
    have hoverlay : readDocument readOverlay document =
        .error (failure.locate (Utf8.encode document)) := by
      simp only [readDocument, hdocument, hread]
    simp only [ofDocument, hoverlay]

/-! ### Written documents -/

/-- A member, as it is written for a configuration. -/
def memberText (c : Config) (field : Field) : String :=
  "\"" ++ field.key ++ "\":" ++ c.fieldText field

/-- The document of a configuration with some of its members, in a given order, without blanks. -/
def documentOf (c : Config) (fields : List Field) : String :=
  "\x7b" ++ String.intercalate "," (fields.map c.memberText) ++ "\x7d"

theorem document_eq (c : Config) : c.document = c.documentOf Field.all := rfl

/-- The member that is written for a field. -/
def memberOf (c : Config) (field : Field) : Member :=
  ⟨Utf8.encode field.key, Utf8.encode (c.fieldText field)⟩

/-- What is not special spells itself. -/
theorem spells_self {bytes : Bytes}
    (h : bytes.all (fun b => b ≠ Ascii.quote ∧ b ≠ Ascii.backslash ∧ ¬ b < Ascii.space)) :
    Spells bytes bytes := by
  induction bytes with
  | nil => exact .nil
  | cons b rest ih =>
      rw [List.all_cons, Bool.and_eq_true, decide_eq_true_iff] at h
      obtain ⟨⟨hquote, hbackslash, hcontrol⟩, hrest⟩ := h
      exact .plain hquote hbackslash hcontrol (ih hrest)

theorem spells_key (field : Field) :
    Spells (Utf8.encode field.key) (Utf8.encode field.key) :=
  spells_self (by cases field <;> rfl)

/-- A written member names its own field and no other. -/
theorem namedBy_memberOf {c : Config} {field other : Field} :
    other.NamedBy (c.memberOf field) ↔ other = field := by
  constructor
  · intro h
    have hown : field.NamedBy (c.memberOf field) := spells_key field
    exact hown.unique h
  · rintro rfl
    exact spells_key other

theorem accepted_memberOf (c : Config) (field : Field) : Accepted (c.memberOf field) := by
  refine ⟨⟨_, spells_key field⟩, fun other h => ?_⟩
  rw [namedBy_memberOf.mp h, memberOf, encode_fieldText]
  exact admits_value c field

theorem text_members (c : Config) {fields : List Field} (hne : fields ≠ []) :
    Text (.members (fields.map c.memberOf))
      (Utf8.encode (String.intercalate "," (fields.map c.memberText))) := by
  have hvalue : ∀ field, Text .value (c.memberOf field).value := by
    intro field
    rw [memberOf, encode_fieldText]
    exact text_literal _
  have hwritten : ∀ field, (c.memberOf field).Written (Utf8.encode (c.memberText field)) := by
    intro field
    refine ⟨[], [], _, .nil, .nil, Padded.refl _, ?_⟩
    simp only [memberText, memberOf, Utf8.encode_append, List.append_assoc, List.nil_append]
    rfl
  have hname : ∀ field, StringBody (c.memberOf field).name := fun field =>
    (spells_key field).stringBody
  induction fields with
  | nil => exact absurd rfl hne
  | cons field rest ih =>
      cases rest with
      | nil =>
          rw [List.map_singleton, List.map_singleton, String.intercalate_singleton]
          exact .lastMember (hname field) (hvalue field) (hwritten field)
      | cons next more =>
          have hrest := ih (List.cons_ne_nil next more)
          have hsplit : String.intercalate "," ((field :: next :: more).map c.memberText) =
              c.memberText field ++ "," ++
                String.intercalate "," ((next :: more).map c.memberText) :=
            String.intercalate_cons_cons
          rw [hsplit, Utf8.encode_append, Utf8.encode_append, List.append_assoc]
          exact .moreMembers (hname field) (hvalue field) (hwritten field) hrest

/-- What is written for a configuration is an object with the members that are written. -/
theorem objectText_documentOf (c : Config) (fields : List Field) :
    ObjectText (fields.map c.memberOf) (Utf8.encode (c.documentOf fields)) := by
  have hbraces : Utf8.encode (c.documentOf fields) = Ascii.openBrace ::
      (Utf8.encode (String.intercalate "," (fields.map c.memberText)) ++ [Ascii.closeBrace]) := by
    rw [documentOf, Utf8.encode_append, Utf8.encode_append]
    rfl
  refine ⟨_, ?_, Padded.refl _⟩
  rw [hbraces]
  cases fields with
  | nil => exact Text.emptyObject .nil
  | cons field rest => exact .members (text_members c (List.cons_ne_nil field rest))

/-- A configuration lies over the default under its members, if those left out are as in the
default. -/
theorem overlaid_memberOf {c : Config} {fields : List Field}
    (hleft : ∀ field, field ∉ fields → c.value field = Config.default.value field) :
    Overlaid c (fields.map c.memberOf) := by
  refine ⟨fun m hm field hnamed => ?_, fun field hfree => hleft field fun hmem => ?_⟩
  · obtain ⟨written, -, rfl⟩ := List.mem_map.mp hm
    rw [namedBy_memberOf.mp hnamed, memberOf, encode_fieldText]
  · exact hfree _ (List.mem_map_of_mem hmem) (namedBy_memberOf.mpr rfl)

/-- What is written for a valid configuration is read back, in whatever order, and also if members
that are as in the default are left out. -/
theorem ofDocument_documentOf {c : Config} {fields : List Field} (hvalid : c.validate = .ok ())
    (hnodup : fields.Nodup)
    (hleft : ∀ field, field ∉ fields → c.value field = Config.default.value field) :
    ofDocument (c.documentOf fields) = .ok c := by
  have honce : Once (fields.map c.memberOf) := by
    refine List.pairwise_map.mpr (hnodup.imp fun {first second} hne field hnamed hother => hne ?_)
    exact (namedBy_memberOf.mp hnamed).symm.trans (namedBy_memberOf.mp hother)
  have haccepted : ∀ m ∈ fields.map c.memberOf, Accepted m := by
    intro m hm
    obtain ⟨field, -, rfl⟩ := List.mem_map.mp hm
    exact accepted_memberOf c field
  obtain ⟨d, hoverlaid, hread⟩ :=
    (ofDocument_of_object (objectText_documentOf c fields) honce).1 haccepted
  obtain rfl := hoverlaid.unique (overlaid_memberOf hleft)
  rw [hread, hvalid]
  rfl

/-- **A document lies over the default.** Take a document that is an object in which no field is named
twice, whatever else its members are, in whatever order they and the blanks stand. If the name of each
member is a text, and each field that is named is given an unsigned integer of 64 bits, or null for
the sweep interval, then the result is what validation says of the default with these values in place
of its own. In every other case the document is refused. So what is written for a valid configuration
is read back, and also if members that are as in the default are left out. -/
theorem ofDocument_overlays_default :
    (∀ (document : String) (members : List Member),
      ObjectText members (Utf8.encode document) → Once members →
      ((∀ m ∈ members, Accepted m) →
        ∃ c, Overlaid c members ∧ ofDocument document = c.validate.map fun _ => c) ∧
      ((∃ m ∈ members, ¬ Accepted m) →
        ∃ error, ofDocument document = .error (.document error))) ∧
    ∀ c : Config, c.validate = .ok () →
      ofDocument c.document = .ok c ∧
      ∀ fields : List Field, fields.Nodup →
        (∀ field, field ∉ fields → c.value field = Config.default.value field) →
        ofDocument (c.documentOf fields) = .ok c := by
  refine ⟨fun document members h honce => ofDocument_of_object h honce, fun c hvalid => ⟨?_, ?_⟩⟩
  · have hall : ∀ field : Field, field ∈ Field.all := by
      intro field
      cases field <;> decide
    rw [document_eq]
    exact ofDocument_documentOf hvalid (by decide) fun field hmissing => absurd (hall field) hmissing
  · intro fields hnodup hleft
    exact ofDocument_documentOf hvalid hnodup hleft

/-! ### A member among blanks, and half a pair -/

/-- The default with a fourth of its places. -/
def sixteen : Config := { Config.default with maxEntries := 16 }

/-- A member that names no field. -/
def stranger : Member := ⟨Utf8.encode "x", Utf8.encode "[null]"⟩

theorem spells_stranger : Spells stranger.name (Utf8.encode "x") := spells_self rfl

theorem not_namedBy_stranger (field : Field) : ¬ field.NamedBy stranger := by
  intro h
  have hsame := Spells.unique spells_stranger h
  cases field <;> exact absurd hsame (by decide)

theorem objectText_stranger :
    ObjectText [stranger, sixteen.memberOf .maxEntries]
      (Utf8.encode "\x7b \"x\" :[null],\"max_entries\":16\x7d ") := by
  have hvalue : Text .value stranger.value :=
    .list (.lastElement (text_literal none) (Padded.refl _))
  have hblank : Blanks [Ascii.space] := fun b hb => by
    rw [List.mem_singleton.mp hb]
    rfl
  have hwritten : stranger.Written (Utf8.encode " \"x\" :[null]") :=
    ⟨[Ascii.space], [Ascii.space], stranger.value, hblank, hblank, Padded.refl _, by decide⟩
  have hsixteen := text_members sixteen (List.cons_ne_nil Field.maxEntries [])
  have hmembers := Text.moreMembers spells_stranger.stringBody hvalue hwritten hsixteen
  exact ⟨_, .members hmembers, [], [Ascii.space], .nil, hblank, by decide⟩

/-- What the document says of the number of entries stands in place of the default, and the document
with no other member is read back. -/
theorem sixteen_of_documents :
    ObjectText [stranger, sixteen.memberOf .maxEntries]
        (Utf8.encode "\x7b \"x\" :[null],\"max_entries\":16\x7d ") ∧
      Once [stranger, sixteen.memberOf .maxEntries] ∧
      (∀ m ∈ [stranger, sixteen.memberOf .maxEntries], Accepted m) ∧
      ofDocument "\x7b \"x\" :[null],\"max_entries\":16\x7d " = .ok sixteen ∧
      sixteen.validate = .ok () ∧ ofDocument (sixteen.documentOf [.maxEntries]) = .ok sixteen := by
  have honce : Once [stranger, sixteen.memberOf .maxEntries] := by
    refine List.pairwise_pair.mpr fun field hnamed => ?_
    exact absurd hnamed (not_namedBy_stranger field)
  have haccepted : ∀ m ∈ [stranger, sixteen.memberOf .maxEntries], Accepted m := by
    intro m hm
    rcases List.mem_cons.mp hm with rfl | hm
    · exact ⟨⟨_, spells_stranger⟩, fun field h => absurd h (not_namedBy_stranger field)⟩
    · rw [List.mem_singleton.mp hm]
      exact accepted_memberOf sixteen .maxEntries
  have hleft : ∀ field, field ∉ [Field.maxEntries] →
      sixteen.value field = Config.default.value field := by
    intro field hmissing
    cases field <;> first | rfl | exact absurd (List.mem_singleton_self _) hmissing
  have hoverlaid : Overlaid sixteen [stranger, sixteen.memberOf .maxEntries] := by
    have hwritten := overlaid_memberOf hleft
    refine ⟨fun m hm field hnamed => ?_, fun field hfree => ?_⟩
    · rcases List.mem_cons.mp hm with rfl | hm
      · exact absurd hnamed (not_namedBy_stranger field)
      · exact hwritten.given m hm field hnamed
    · exact hwritten.others field fun m hm => hfree m (List.mem_cons_of_mem stranger hm)
  have hvalid : sixteen.validate = .ok () := rfl
  obtain ⟨hdocuments, hwritten⟩ := ofDocument_overlays_default
  obtain ⟨c, hc, hread⟩ := (hdocuments _ _ objectText_stranger honce).1 haccepted
  obtain rfl := hc.unique hoverlaid
  rw [hvalid] at hread
  exact ⟨objectText_stranger, honce, haccepted, hread, hvalid,
    (hwritten sixteen hvalid).2 [.maxEntries] (by simp) hleft⟩

/-- A member whose name escapes the first half of a pair of surrogates. -/
def halfPair : Member := ⟨Utf8.encode "\\ud800", Utf8.encode "1"⟩

/-- Half a pair may be written as the name of a member, and spells no text. -/
theorem not_spells_halfPair : StringBody halfPair.name ∧ ∀ text, ¬ Spells halfPair.name text := by
  have hdigits := Hex.mk (a := 0x64) (b := 0x38) (c := 0x30) (d := 0x30) rfl rfl rfl rfl
  refine ⟨.long hdigits .nil, fun text h => ?_⟩
  have hread := readString_of_spells h []
  have hescape : readEscape true (unicodeLetter :: ([0x64, 0x38, 0x30, 0x30] ++ [Ascii.quote])) =
      .error ⟨.unfinishedSurrogate, []⟩ := rfl
  have hrefused := readString_escape_error hescape
  exact absurd (hrefused.symm.trans hread) (by simp)

/-- Where the name of a member is no text, the document is refused although no field is given a value
that it does not admit. -/
theorem refused_of_halfPair :
    ObjectText [halfPair] (Utf8.encode "\x7b\"\\ud800\":1\x7d") ∧ Once [halfPair] ∧
      (∀ m ∈ [halfPair], ∀ field : Field, field.NamedBy m → field.Admits m.value) ∧
      ¬ ∃ c, Overlaid c [halfPair] ∧
        ofDocument "\x7b\"\\ud800\":1\x7d" = c.validate.map fun _ => c := by
  obtain ⟨hbody, hspells⟩ := not_spells_halfPair
  have hfree : ∀ m ∈ [halfPair], ∀ field : Field, ¬ field.NamedBy m := by
    intro m hm field
    obtain rfl := List.mem_singleton.mp hm
    exact hspells _
  have hvalue : Text .value halfPair.value := .number (numeralText_decimal 1)
  have hwritten : halfPair.Written (Utf8.encode "\"\\ud800\":1") :=
    ⟨[], [], halfPair.value, .nil, .nil, Padded.refl _, by decide⟩
  have htext : ObjectText [halfPair] (Utf8.encode "\x7b\"\\ud800\":1\x7d") :=
    ⟨_, .members (.lastMember hbody hvalue hwritten), [], [], .nil, .nil, by decide⟩
  have honce : Once [halfPair] := List.pairwise_singleton _ _
  have hrefused : ¬ Accepted halfPair := fun h => h.1.elim hspells
  refine ⟨htext, honce, fun m hm field hnamed => absurd hnamed (hfree m hm field), ?_⟩
  rintro ⟨c, hoverlaid, hread⟩
  obtain rfl : c = Config.default :=
    ext_value fun field => hoverlaid.others field fun m hm => hfree m hm field
  obtain ⟨error, herror⟩ :=
    (ofDocument_of_object htext honce).2 ⟨_, List.mem_singleton_self _, hrefused⟩
  rw [herror] at hread
  cases hread

end AccessControl.Config
