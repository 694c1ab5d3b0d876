import AccessControl.Proofs.Credential.Bytewise

/-!
The grammar of headers.

`Reading` says of every text what should be answered, in terms of what the text is: a known tag, a
rounds field or none, and the longest run of salt characters behind it. It names every error with
its text. The reader of headers answers so, and in no other way (`parse_eq_iff_reading`).

Main statement: `parse_exact`, which adds that the reader that counts bytes makes no cut that leaves
the text or goes through a character.
-/

namespace AccessControl.Header

open ShaCrypt (Algorithm)

/-! ### Longest runs -/

/-- A run of characters of a kind at the front of a text, than which there is no longer one. -/
structure LongestRun (p : Char → Bool) (run text : List Char) : Prop where
  front : run <+: text
  kind : ∀ c ∈ run, p c = true
  longest : ∀ other, other <+: text → (∀ c ∈ other, p c = true) → other.length ≤ run.length

variable {p : Char → Bool} {run text rest body digits : List Char}

theorem isPrefix_takeWhile (hfront : run <+: text) (hkind : ∀ c ∈ run, p c = true) :
    run <+: text.takeWhile p := by
  obtain ⟨back, rfl⟩ := hfront
  rw [List.takeWhile_append_of_pos hkind]
  exact List.prefix_append run _

theorem longestRun_iff : LongestRun p run text ↔ run = text.takeWhile p := by
  constructor
  · intro h
    have hlength : (text.takeWhile p).length ≤ run.length := by
      apply h.longest
      · exact List.takeWhile_prefix p
      · intro c hc
        exact List.mem_takeWhile_imp hc
    exact (isPrefix_takeWhile h.front h.kind).eq_of_length_le hlength
  · rintro rfl
    constructor
    · exact List.takeWhile_prefix p
    · intro c hc
      exact List.mem_takeWhile_imp hc
    · intro other hfront hkind
      exact (isPrefix_takeWhile hfront hkind).length_le

/-! ### What should be answered -/

/-- The rounds that are written behind a tag, if there are any, and where the salt begins. -/
inductive RoundsPart (rest : List Char) : Option Nat → List Char → Prop
  /-- A number that is not too large is taken into range. -/
  | written {digits body : List Char} (hfield : HasField rest digits body)
      (hsmall : Nat.ofDigitChars 10 digits 0 ≤ 4294967295) :
      RoundsPart rest (some (max 1000 (min (Nat.ofDigitChars 10 digits 0) 999999999))) body
  /-- Without a rounds field everything is salt. -/
  | unwritten (hnone : ∀ digits body, ¬ HasField rest digits body) : RoundsPart rest none rest

/-- What the reader of headers should answer to a text. -/
inductive Reading (text : String) : Except HashError Header → Prop
  /-- Another tag is reported by its name. -/
  | foreign {name rest : List Char}
      (hunknown : ∀ algorithm, ¬ (tag algorithm).toList <+: text.toList)
      (htext : text.toList = '$' :: (name ++ '$' :: rest)) (hname : '$' ∉ name) :
      Reading text (.error (.unsupported ("$" ++ String.ofList name ++ "$")))
  /-- So is a text without a tag. -/
  | untagged (hunknown : ∀ algorithm, ¬ (tag algorithm).toList <+: text.toList)
      (huntagged : ∀ name rest, text.toList ≠ '$' :: (name ++ '$' :: rest)) :
      Reading text (.error (.unsupported "<untagged>"))
  /-- The number of the rounds field is too large. -/
  | overflow {algorithm : Algorithm} {rest digits body : List Char}
      (htext : text.toList = (tag algorithm).toList ++ rest) (hfield : HasField rest digits body)
      (hlarge : 4294967295 < Nat.ofDigitChars 10 digits 0) :
      Reading text (.error (.malformed ("rounds out of range: " ++ String.ofList digits)))
  /-- There is no salt where it should begin. -/
  | unsalted {algorithm : Algorithm} {rest body : List Char} {rounds : Option Nat}
      (htext : text.toList = (tag algorithm).toList ++ rest) (hrounds : RoundsPart rest rounds body)
      (hsalt : LongestRun isSaltChar [] body) :
      Reading text (.error (.malformed "missing salt"))
  /-- The salt is the longest run of salt characters, of which the first sixteen are used. -/
  | header {algorithm : Algorithm} {rest body run : List Char} {rounds : Option Nat}
      (htext : text.toList = (tag algorithm).toList ++ rest) (hrounds : RoundsPart rest rounds body)
      (hsalt : LongestRun isSaltChar run body) (hnonempty : run ≠ []) :
      Reading text
        (.ok ⟨algorithm, rounds.getD 5000, rounds.isSome, String.ofList (run.take 16)⟩)

/-! ### The parts of the reader -/

theorem readRounds_of_part {rounds : Option Nat} (h : RoundsPart rest rounds body) :
    readRounds rest = .ok (rounds.map fun n => (n, body)) := by
  cases h with
  | written hfield hsmall =>
      rw [← maxWrittenRounds_eq] at hsmall
      rw [readRounds_of_hasField hfield hsmall, clampRounds_eq]
      rfl
  | unwritten hnone => exact readRounds_of_not_hasField hnone

theorem readSalt_of_unsalted (h : LongestRun isSaltChar [] body) :
    readSalt body = .error (.malformed "missing salt") := by
  have hnil : body.takeWhile isSaltChar = [] := (longestRun_iff.mp h).symm
  unfold readSalt
  rw [hnil]
  rfl

theorem readSalt_of_longestRun (h : LongestRun isSaltChar run body) (hnonempty : run ≠ []) :
    readSalt body = .ok (String.ofList (run.take ShaCrypt.saltMax)) := by
  obtain rfl := longestRun_iff.mp h
  unfold readSalt
  cases hrun : body.takeWhile isSaltChar with
  | nil => exact absurd hrun hnonempty
  | cons c rest => rfl

theorem readTag_of_unknown (h : ∀ algorithm, ¬ (tag algorithm).toList <+: text) :
    readTag text = .error (.unsupported (foreignTag text)) := by
  have hnone : ∀ algorithm, (tag algorithm).toList.isPrefixOf? text = none := by
    intro algorithm
    cases hrest : (tag algorithm).toList.isPrefixOf? text with
    | none => rfl
    | some rest => exact absurd ⟨rest, (isPrefixOf?_eq_some_iff.mp hrest).symm⟩ (h algorithm)
  unfold readTag
  rw [hnone, hnone]

/-- The name of a tag stands between the first two dollars. -/
theorem foreignTag_of_tagged {name : List Char} (htext : text = '$' :: (name ++ '$' :: rest))
    (hname : '$' ∉ name) : foreignTag text = "$" ++ String.ofList name ++ "$" := by
  have hchars : ∀ c ∈ name, (c != '$') = true := by
    rintro c hc
    rw [bne_iff_ne]
    rintro rfl
    exact hname hc
  have hrun : (name ++ '$' :: rest).takeWhile (· != '$') = name :=
    takeWhile_append_stop hchars (by simp)
  have hdollar : (name ++ '$' :: rest).elem '$' = true := by simp
  subst htext
  simp only [foreignTag, hdollar, hrun, if_true]
  apply String.toList_inj.mp
  simp

theorem foreignTag_of_untagged (h : ∀ name rest, text ≠ '$' :: (name ++ '$' :: rest)) :
    foreignTag text = "<untagged>" := by
  unfold foreignTag
  split
  · rename_i rest
    split
    · rename_i hdollar
      obtain ⟨name, more, rfl⟩ := List.append_of_mem (List.elem_iff.mp hdollar)
      exact absurd rfl (h name more)
    · rfl
  · rfl

/-- Behind a known tag the answer is that of the salt, with the rounds. -/
theorem parse_of_part {text : String} {algorithm : Algorithm} {rounds : Option Nat}
    (htext : text.toList = (tag algorithm).toList ++ rest) (hrounds : RoundsPart rest rounds body) :
    parse text = (readSalt body).map (ofParts algorithm rounds) := by
  have hpart := readRounds_of_part hrounds
  rw [parse, htext, readTag_append]
  simp only [bind, Except.bind, hpart]
  cases hrounds with
  | written hfield hsmall =>
      simp only [Option.map_some]
      cases readSalt body <;> rfl
  | unwritten hnone =>
      simp only [Option.map_none]
      cases readSalt rest <;> rfl

/-! ### The answer and the reader -/

variable {answer : Except HashError Header}

/-- What should be answered is answered. -/
theorem Reading.parse_eq {text : String} (h : Reading text answer) : parse text = answer := by
  cases h with
  | foreign hunknown htext hname =>
      rw [parse, readTag_of_unknown hunknown, foreignTag_of_tagged htext hname]
      rfl
  | untagged hunknown huntagged =>
      rw [parse, readTag_of_unknown hunknown, foreignTag_of_untagged huntagged]
      rfl
  | overflow htext hfield hlarge =>
      rw [← maxWrittenRounds_eq] at hlarge
      rw [parse, htext, readTag_append]
      simp only [bind, Except.bind, readRounds_of_overflow hfield hlarge]
  | unsalted htext hrounds hsalt =>
      rw [parse_of_part htext hrounds, readSalt_of_unsalted hsalt]
      rfl
  | header htext hrounds hsalt hnonempty =>
      rw [parse_of_part htext hrounds, readSalt_of_longestRun hsalt hnonempty]
      rfl

/-- Something should be answered where the salt begins. -/
theorem exists_reading_of_part {text : String} {algorithm : Algorithm} {rounds : Option Nat}
    (htext : text.toList = (tag algorithm).toList ++ rest) (hrounds : RoundsPart rest rounds body) :
    ∃ answer, Reading text answer := by
  by_cases hnil : body.takeWhile isSaltChar = []
  · exact ⟨_, .unsalted htext hrounds (longestRun_iff.mpr hnil.symm)⟩
  · exact ⟨_, .header htext hrounds (longestRun_iff.mpr rfl) hnil⟩

/-- There is an answer to every text. -/
theorem exists_reading (text : String) : ∃ answer, Reading text answer := by
  by_cases htag : ∃ algorithm, (tag algorithm).toList <+: text.toList
  · obtain ⟨algorithm, rest, htext⟩ := htag
    by_cases hfield : ∃ digits body, HasField rest digits body
    · obtain ⟨digits, body, hfield⟩ := hfield
      by_cases hsmall : Nat.ofDigitChars 10 digits 0 ≤ 4294967295
      · exact exists_reading_of_part htext.symm (.written hfield hsmall)
      · exact ⟨_, .overflow htext.symm hfield (Nat.not_le.mp hsmall)⟩
    · apply exists_reading_of_part htext.symm
      apply RoundsPart.unwritten
      intro digits body hhas
      exact hfield ⟨digits, body, hhas⟩
  · have hunknown : ∀ algorithm, ¬ (tag algorithm).toList <+: text.toList :=
      fun algorithm hfront => htag ⟨algorithm, hfront⟩
    by_cases hdollars : ∃ name rest, text.toList = '$' :: (name ++ '$' :: rest)
    · -- The first of the dollars behind the one in front ends the name.
      obtain ⟨front, back, htext⟩ := hdollars
      have hdollar : '$' ∈ front ++ '$' :: back := by simp
      obtain ⟨name, rest, hsplit, hname⟩ := List.eq_append_cons_of_mem hdollar
      exact ⟨_, .foreign hunknown (hsplit ▸ htext) hname⟩
    · exact ⟨_, .untagged hunknown fun name rest htext => hdollars ⟨name, rest, htext⟩⟩

/-- The reader gives the answer that should be given, and no other. -/
theorem parse_eq_iff_reading {text : String} : parse text = answer ↔ Reading text answer := by
  constructor
  · rintro rfl
    obtain ⟨answer, hreading⟩ := exists_reading text
    rwa [hreading.parse_eq]
  · intro h
    exact h.parse_eq

/-- **The reader of headers accepts exactly its grammar.** Every text is answered as `Reading` says
and in no other way; and the reader that counts bytes makes no cut outside of the text or inside a
character, and answers the same. -/
theorem parse_exact (text : String) (answer : Except HashError Header) :
    (parse text = answer ↔ Reading text answer) ∧ Bytewise.parse text = .ok (parse text) := by
  constructor
  · exact parse_eq_iff_reading
  · exact Bytewise.parse_eq text

end AccessControl.Header
