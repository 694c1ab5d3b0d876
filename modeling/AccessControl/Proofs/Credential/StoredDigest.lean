import AccessControl.Proofs.Credential.Canonical
import AccessControl.Proofs.Credential.Grammar
import AccessControl.Proofs.Credential.Normalization

/-!
What a stored digest has to do with how a token is read.

Hashing reads the header at the front of a stored text. A dollar ends whatever the reader looks for:
no dollar stands in the name of a rounds field, in its digits or in a salt. So a dollar behind an
accepted text, and all that follows it, is not read, with one exception: a rounds field that lacked
nothing but its dollar was salt before and is a field now (`hasField_append_dollar_iff`).

Main statement: `stored_digest_unread`.
-/

namespace AccessControl.Header

open ShaCrypt (Algorithm)

variable {text : String} {rest body digits more : List Char} {rounds : Option Nat} {h : Header}

/-! ### Rounds fields -/

/-- The name of a rounds field and some digits, with nothing behind them. -/
structure Unfinished (rest digits : List Char) : Prop where
  rest_eq : rest = roundsField.toList ++ digits
  nonempty : digits ≠ []
  isDigit : ∀ c ∈ digits, c.isDigit = true

theorem dollar_not_mem_field (hdigits : ∀ c ∈ digits, c.isDigit = true) :
    '$' ∉ roundsField.toList ++ digits := by
  rw [List.mem_append, not_or]
  constructor
  · decide
  · intro hmem
    exact absurd (hdigits '$' hmem) (by decide)

/-- A dollar behind a text leaves its rounds field as it is, and makes one only out of digits that
stood at the end. -/
theorem hasField_append_dollar_iff :
    HasField (rest ++ '$' :: more) digits body ↔
      (∃ front, HasField rest digits front ∧ body = front ++ '$' :: more) ∨
        (Unfinished rest digits ∧ body = more) := by
  constructor
  · intro hfield
    have hdollar := dollar_not_mem_field hfield.isDigit
    have hsame : rest ++ '$' :: more = (roundsField.toList ++ digits) ++ '$' :: body := by
      rw [hfield.text_eq, List.append_assoc]
    -- The dollar that ends the digits is the one behind the text, or it stands in the text.
    rcases List.append_eq_append_iff.mp hsame with ⟨between, hrest, hback⟩ | ⟨between, hrest, hback⟩
    · cases between with
      | nil =>
          rw [List.append_nil] at hrest
          cases hback
          exact Or.inr ⟨⟨hrest.symm, hfield.nonempty, hfield.isDigit⟩, rfl⟩
      | cons c others =>
          cases hback
          exact absurd (hrest ▸ by simp) hdollar
    · cases between with
      | nil =>
          rw [List.append_nil] at hrest
          cases hback
          exact Or.inr ⟨⟨hrest, hfield.nonempty, hfield.isDigit⟩, rfl⟩
      | cons c front =>
          cases hback
          refine Or.inl ⟨front, ⟨?_, hfield.nonempty, hfield.isDigit⟩, rfl⟩
          rw [hrest, List.append_assoc]
  · rintro (⟨front, hfield, rfl⟩ | ⟨hunfinished, rfl⟩)
    · refine ⟨?_, hfield.nonempty, hfield.isDigit⟩
      rw [hfield.text_eq]
      simp
    · refine ⟨?_, hunfinished.nonempty, hunfinished.isDigit⟩
      rw [hunfinished.rest_eq, List.append_assoc]

theorem Unfinished.not_hasField {others : List Char} (hunfinished : Unfinished rest digits) :
    ¬ HasField rest others body := by
  intro hfield
  have hdollar := dollar_not_mem_field hunfinished.isDigit
  rw [← hunfinished.rest_eq, hfield.text_eq] at hdollar
  simp at hdollar

/-- Rounds are read, or not read, as before the dollar, and so is what follows them. -/
theorem RoundsPart.append_dollar (hrounds : RoundsPart rest rounds body)
    (hwhole : ∀ digits, ¬ Unfinished rest digits) (more : List Char) :
    RoundsPart (rest ++ '$' :: more) rounds (body ++ '$' :: more) := by
  cases hrounds with
  | written hfield hsmall =>
      exact .written (hasField_append_dollar_iff.mpr (Or.inl ⟨_, hfield, rfl⟩)) hsmall
  | unwritten hnone =>
      refine .unwritten fun digits body hfield => ?_
      rcases hasField_append_dollar_iff.mp hfield with ⟨front, hold, -⟩ | ⟨hunfinished, -⟩
      · exact hnone digits front hold
      · exact hwhole digits hunfinished

/-! ### Salts -/

/-- A salt is read up to the dollar at most. -/
theorem readSalt_append_dollar (body more : List Char) :
    readSalt (body ++ '$' :: more) = readSalt body := by
  have hrun : (body ++ '$' :: more).takeWhile isSaltChar = body.takeWhile isSaltChar := by
    induction body with
    | nil => simp [isSaltChar_dollar]
    | cons c body ih => simp only [List.cons_append, List.takeWhile_cons, ih]
  rw [readSalt, readSalt, hrun]

/-! ### Headers -/

/-- What follows the tag is a rounds field that lacks its dollar. -/
def LacksDollar (text : String) : Prop :=
  ∃ algorithm rest digits, text.toList = (tag algorithm).toList ++ rest ∧ Unfinished rest digits

theorem exists_tag_of_parse (hparse : parse text = .ok h) :
    ∃ algorithm rest, text.toList = (tag algorithm).toList ++ rest := by
  cases parse_eq_iff_reading.mp hparse with
  | header htext hrounds hsalt hnonempty => exact ⟨_, _, htext⟩

/-- In an accepted text the rounds behind the tag are read, and written again if there are any. -/
theorem exists_part_of_parse {algorithm : Algorithm} (hparse : parse text = .ok h)
    (htext : text.toList = (tag algorithm).toList ++ rest) :
    ∃ rounds body, RoundsPart rest rounds body ∧ h.customRounds = rounds.isSome := by
  cases parse_eq_iff_reading.mp hparse with
  | header htext' hrounds hsalt hnonempty =>
      obtain ⟨rfl, rfl⟩ := Pieces.tag_append_inj (htext.symm.trans htext')
      exact ⟨_, _, hrounds, rfl⟩

theorem toList_append_dollar {front : List Char} (htext : text.toList = front ++ rest)
    (more : String) :
    (text ++ "$" ++ more).toList = front ++ (rest ++ '$' :: more.toList) := by
  simp [htext]

/-- An accepted text is read alike with a dollar and anything else behind it. -/
theorem parse_append_dollar (hparse : parse text = .ok h) (hwhole : ¬ LacksDollar text)
    (more : String) : parse (text ++ "$" ++ more) = .ok h := by
  obtain ⟨algorithm, rest, htext⟩ := exists_tag_of_parse hparse
  obtain ⟨rounds, body, hrounds, -⟩ := exists_part_of_parse hparse htext
  have hlonger := toList_append_dollar htext more
  have hpart : RoundsPart (rest ++ '$' :: more.toList) rounds (body ++ '$' :: more.toList) :=
    hrounds.append_dollar (fun digits h => hwhole ⟨algorithm, rest, digits, htext, h⟩) _
  rw [parse_of_part hlonger hpart, readSalt_append_dollar, ← parse_of_part htext hrounds, hparse]

/-- With a dollar behind digits that stood at the end the rounds are written, and without it they
were not. -/
theorem parse_append_dollar_ne (hparse : parse text = .ok h) (hlacks : LacksDollar text)
    (more : String) : parse (text ++ "$" ++ more) ≠ .ok h := by
  obtain ⟨algorithm, rest, digits, htext, hunfinished⟩ := hlacks
  have hlonger := toList_append_dollar htext more
  intro hsame
  obtain ⟨before, body, hbefore, hunwritten⟩ := exists_part_of_parse hparse htext
  obtain ⟨after, body', hafter, hwritten⟩ := exists_part_of_parse hsame hlonger
  cases hbefore with
  | written hfield hsmall => exact hunfinished.not_hasField hfield
  | unwritten =>
      cases hafter with
      | written =>
          rw [hunwritten] at hwritten
          cases hwritten
      | unwritten hnone =>
          exact hnone _ _ (hasField_append_dollar_iff.mpr (Or.inr ⟨hunfinished, rfl⟩))

/-- The text of a valid header lacks nothing. -/
theorem not_lacksDollar_render (hvalid : h.Valid) : ¬ LacksDollar h.render := by
  intro hlacks
  apply parse_append_dollar_ne (parse_render hvalid) hlacks ""
  rw [String.append_assoc]
  exact parse_render_append hvalid (by simp)

/-- Where a rounds field lacks its dollar, there is none behind the tag. -/
theorem LacksDollar.dollar_not_mem (hlacks : LacksDollar text) : '$' ∉ text.toList.drop 3 := by
  obtain ⟨algorithm, rest, digits, htext, hunfinished⟩ := hlacks
  have hlength : (tag algorithm).toList.length = 3 := by cases algorithm <;> rfl
  rw [htext, List.drop_left' hlength, hunfinished.rest_eq]
  exact dollar_not_mem_field hunfinished.isDigit

/-! ### Tokens -/

section Tokens

variable {σ : Type} {policy : Policy} {source : SaltSource σ}

theorem crypt_append_dollar (hparse : parse text = .ok h) (hwhole : ¬ LacksDollar text)
    (stored : String) (secret : Bytes) (state : σ) :
    (policy.hasher source).crypt secret (some (text ++ "$" ++ stored)) state =
      (policy.hasher source).crypt secret (some text) state := by
  rw [Policy.crypt_some, Policy.crypt_some, parse_append_dollar hparse hwhole, hparse]

theorem crypt_render (hvalid : h.Valid) (secret : Bytes) (state : σ) :
    (policy.hasher source).crypt secret (some h.render) state =
      (.ok (h.render ++ "$" ++ h.digest secret), state) := by
  rw [Policy.crypt_some, parse_render hvalid, ← token_of_valid hvalid secret]
  rfl

/-- **Hashing never looks at the stored digest.** An accepted text is read alike, and gives the same
answer with every secret, whether it stands alone or with a dollar and anything else behind it; only
where it ends in a rounds field without a dollar is it read otherwise with one. So the text of a
valid header and all stored texts that go on behind it at a dollar give one token, which is that
header with the digest of the secret. -/
theorem stored_digest_unread (policy : Policy) (source : SaltSource σ) :
    (∀ {text : String} {h : Header}, parse text = .ok h → ¬ LacksDollar text → ∀ stored : String,
      parse (text ++ "$" ++ stored) = parse text ∧
      ∀ secret state, (policy.hasher source).crypt secret (some (text ++ "$" ++ stored)) state =
        (policy.hasher source).crypt secret (some text) state) ∧
    (∀ {text : String} {h : Header}, parse text = .ok h → LacksDollar text → ∀ stored : String,
      parse (text ++ "$" ++ stored) ≠ parse text) ∧
    ∀ {h : Header}, h.Valid → ∀ (secret : Bytes) (state : σ),
      (policy.hasher source).crypt secret (some h.render) state =
        (.ok (h.render ++ "$" ++ h.digest secret), state) ∧
      ∀ stored : String,
        (policy.hasher source).crypt secret (some (h.render ++ "$" ++ stored)) state =
          (.ok (h.render ++ "$" ++ h.digest secret), state) := by
  refine ⟨?_, ?_, ?_⟩
  · intro text h hparse hwhole stored
    rw [hparse]
    exact ⟨parse_append_dollar hparse hwhole stored, crypt_append_dollar hparse hwhole stored⟩
  · intro text h hparse hlacks stored
    rw [hparse]
    exact parse_append_dollar_ne hparse hlacks stored
  · intro h hvalid secret state
    refine ⟨crypt_render hvalid secret state, fun stored => ?_⟩
    rw [crypt_append_dollar (parse_render hvalid) (not_lacksDollar_render hvalid) stored]
    exact crypt_render hvalid secret state

/-- Too few rounds and a salt that is cut short by a foreign character are read alike with a digest
that looks like a rounds field, and the header that was read gives one token with any digest.
Digits at the end of a text are salt, and with a dollar behind them they are not. -/
theorem unread_of_imitatedField :
    parse "$5$rounds=010$salt=x" = .ok ⟨.sha256, 1000, true, "salt"⟩ ∧
      ¬ LacksDollar "$5$rounds=010$salt=x" ∧
      parse ("$5$rounds=010$salt=x" ++ "$" ++ "rounds=7$y") = parse "$5$rounds=010$salt=x" ∧
      (∀ stored : String,
        (Policy.default.hasher (SaltSource.constant 0)).crypt []
            (some ((⟨.sha256, 1000, true, "salt"⟩ : Header).render ++ "$" ++ stored)) () =
          (.ok ((⟨.sha256, 1000, true, "salt"⟩ : Header).render ++ "$" ++
            (⟨.sha256, 1000, true, "salt"⟩ : Header).digest []), ())) ∧
      parse "$6$rounds=10" = .ok ⟨.sha512, 5000, false, "rounds"⟩ ∧ LacksDollar "$6$rounds=10" ∧
      parse ("$6$rounds=10" ++ "$" ++ "salt") ≠ parse "$6$rounds=10" := by
  have hparse : parse "$5$rounds=010$salt=x" = .ok ⟨.sha256, 1000, true, "salt"⟩ := rfl
  have hwhole : ¬ LacksDollar "$5$rounds=010$salt=x" := fun hlacks =>
    hlacks.dollar_not_mem (by decide)
  have hsalt : parse "$6$rounds=10" = .ok ⟨.sha512, 5000, false, "rounds"⟩ := rfl
  have hlacks : LacksDollar "$6$rounds=10" :=
    ⟨.sha512, "rounds=10".toList, "10".toList, rfl, rfl, by decide, List.all_eq_true.mp rfl⟩
  obtain ⟨hunread, hread, htoken⟩ := stored_digest_unread Policy.default (SaltSource.constant 0)
  exact ⟨hparse, hwhole, (hunread hparse hwhole "rounds=7$y").1,
    (htoken (valid_of_parse hparse) [] ()).2, hsalt, hlacks, hread hsalt hlacks "salt"⟩

end Tokens

end AccessControl.Header
