import AccessControl.Credential.Token
import AccessControl.Proofs.Credential.StoredDigest

/-!
What is shown of a stored token.

The reader of headers looks for the end of a salt from the front of a text, and what is shown of the
text ends at its last dollar. These are two ways to cut. The first one goes through the same place
whatever follows the dollar of the salt (`Opens.of_agrees`), and the second one does not: it hides
the last field behind the salt, and all fields before it are shown.

Main statement: `fields_shown_but_last`.
-/

namespace AccessControl

open Header

/-! ### Other pieces behind the salt -/

namespace Pieces

variable {p : Pieces} {h : Header} {tail : List Char}

/-- What stands in a text up to the end of its salt. -/
def opening (p : Pieces) : List Char :=
  (tag p.algorithm).toList ++
    match p.digits? with
    | none => p.salt
    | some digits => roundsField.toList ++ (digits ++ '$' :: p.salt)

/-- The pieces with a dollar and something else behind the salt. -/
def withTail (p : Pieces) (other : List Char) : Pieces := { p with rest := '$' :: other }

theorem toList_text (p : Pieces) : p.text.toList = (tag p.algorithm).toList ++ p.body :=
  String.toList_ofList

theorem toList_text_eq_opening (p : Pieces) : p.text.toList = p.opening ++ p.rest := by
  obtain ⟨algorithm, digits?, salt, rest⟩ := p
  cases digits? <;> simp [toList_text, body, opening]

/-- The rounds field of a text and the end of its salt stay where they are, whatever follows the
dollar of the salt. -/
theorem Cut.withTail (hcut : p.Cut) (hrest : p.rest = '$' :: tail) (other : List Char) :
    (p.withTail other).Cut := by
  refine ⟨hcut.digits, ?_, hcut.salt, by simp [Pieces.withTail]⟩
  intro hnone digits body hfield
  -- The dollar of the salt makes the same characters before it a rounds field.
  have hno := hcut.noField hnone digits
  rw [hrest] at hno
  rcases hasField_append_dollar_iff.mp hfield with ⟨front, hold, -⟩ | ⟨hunfinished, -⟩
  · exact hno _ (hasField_append_dollar_iff.mpr (Or.inl ⟨front, hold, rfl⟩))
  · exact hno _ (hasField_append_dollar_iff.mpr (Or.inr ⟨hunfinished, rfl⟩))

/-- The rounds of a text are the digits among its pieces, and its salt begins behind them. -/
theorem Cut.roundsPart (hcut : p.Cut)
    (hsmall : ∀ digits ∈ p.digits?, Nat.ofDigitChars 10 digits 0 ≤ maxWrittenRounds) :
    RoundsPart p.body (p.digits?.map fun digits => clampRounds (Nat.ofDigitChars 10 digits 0))
      (p.salt ++ p.rest) := by
  cases hdigits : p.digits? with
  | none =>
      have hbody : p.body = p.salt ++ p.rest := by rw [body, hdigits]
      rw [hbody]
      exact .unwritten (hcut.noField hdigits)
  | some digits => exact .written (hcut.hasField hdigits) (hsmall digits hdigits)

theorem Cut.small_of_parse (hcut : p.Cut) (hparse : parse p.text = .ok h) :
    ∀ digits ∈ p.digits?, Nat.ofDigitChars 10 digits 0 ≤ maxWrittenRounds := by
  intro digits hdigits
  by_contra hlarge
  have hoverflow := Reading.overflow p.toList_text (hcut.hasField hdigits) (Nat.not_le.mp hlarge)
  rw [hoverflow.parse_eq] at hparse
  cases hparse

/-- The header of a text is read whatever follows the dollar of its salt. -/
theorem Cut.parse_withTail (hcut : p.Cut) (hrest : p.rest = '$' :: tail)
    (hparse : parse p.text = .ok h) (other : List Char) :
    parse (p.withTail other).text = .ok h := by
  have hsmall := hcut.small_of_parse hparse
  rw [parse_of_part p.toList_text (hcut.roundsPart hsmall), hrest,
    readSalt_append_dollar] at hparse
  rw [parse_of_part (toList_text _) ((hcut.withTail hrest other).roundsPart hsmall), ← hparse]
  exact congrArg _ (readSalt_append_dollar p.salt other)

end Pieces

namespace Token

/-! ### Fields -/

variable {front back text other : List Char}

/-- The fields of a text between its dollars, without the last one. -/
def shownFields (text : List Char) : List (List Char) := (text.splitOn '$').dropLast

theorem shownFields_append (front back : List Char) :
    shownFields (front ++ '$' :: back) = front.splitOn '$' ++ shownFields back := by
  rw [shownFields, List.splitOn_append_cons_self,
    List.dropLast_append_of_ne_nil (List.splitOn_ne_nil '$' back), shownFields]

theorem shownFields_eq_nil_iff : shownFields text = [] ↔ '$' ∉ text := by
  constructor
  · intro hnil hdollar
    obtain ⟨front, back, rfl⟩ := List.append_of_mem hdollar
    rw [shownFields_append] at hnil
    exact List.splitOn_ne_nil '$' front (List.append_eq_nil_iff.mp hnil).1
  · intro hdollar
    rw [shownFields, List.splitOn_eq_singleton hdollar, List.dropLast_singleton]

theorem beforeLastDollar_append (front : List Char) (hback : '$' ∉ back) :
    beforeLastDollar (front ++ '$' :: back) = front := by
  have hreverse : (front ++ '$' :: back).reverse = back.reverse ++ '$' :: front.reverse := by simp
  have hchars : ∀ c ∈ back.reverse, (c != '$') = true := by
    intro c hc
    rw [bne_iff_ne]
    rintro rfl
    exact hback (List.mem_reverse.mp hc)
  rw [beforeLastDollar, hreverse, dropWhile_append_stop hchars (by simp), List.drop_one,
    List.tail_cons, List.reverse_reverse]

/-- What stands before the last dollar is all fields but the last. -/
theorem splitOn_beforeLastDollar (hdollar : '$' ∈ text) :
    (beforeLastDollar text).splitOn '$' = shownFields text := by
  obtain ⟨last, before, hreverse, hlast⟩ :=
    List.eq_append_cons_of_mem (List.mem_reverse.mpr hdollar)
  have htext : text = before.reverse ++ '$' :: last.reverse := by
    rw [← List.reverse_reverse text, hreverse]
    simp
  have hback : '$' ∉ last.reverse := fun hmem => hlast (List.mem_reverse.mp hmem)
  rw [htext, beforeLastDollar_append _ hback, shownFields_append,
    shownFields_eq_nil_iff.mpr hback, List.append_nil]

theorem splitOn_inj : text.splitOn '$' = other.splitOn '$' ↔ text = other :=
  (Function.LeftInverse.injective fun _ => List.intercalate_splitOn '$').eq_iff

theorem redacted_eq_iff_front {token : Token} :
    token.redacted = "CryptToken(" ++ String.ofList front ++ "$...)" ↔
      beforeLastDollar token.text.toList = front := by
  simp [redacted, String.ofList_inj]

/-- Two texts with a dollar are shown alike if their fields are the same but for the last. -/
theorem redacted_eq_iff {s t : Token} (hs : '$' ∈ s.text.toList) (ht : '$' ∈ t.text.toList) :
    s.redacted = t.redacted ↔ shownFields s.text.toList = shownFields t.text.toList := by
  rw [← splitOn_beforeLastDollar hs, ← splitOn_beforeLastDollar ht, splitOn_inj]
  exact redacted_eq_iff_front

/-! ### Openings -/

variable {a b : Bytes} {s t : Token} {opening tail : List Char}

/-- Stored bytes hold a token whose header is read. The opening is what stands before the dollar
that ends its salt, and the tail is what stands behind that dollar. -/
structure Opens (bytes : Bytes) (token : Token) (opening tail : List Char) : Prop where
  stored : ofBytes bytes = .ok token
  read : ∃ h, parse token.text = .ok h
  ends : ∃ p : Pieces, p.Cut ∧ p.text = token.text ∧ p.opening = opening ∧ p.rest = '$' :: tail

theorem Opens.text_eq (hopens : Opens a s opening tail) :
    s.text.toList = opening ++ '$' :: tail := by
  obtain ⟨p, -, htext, rfl, hrest⟩ := hopens.ends
  rw [← htext, p.toList_text_eq_opening, hrest]

theorem Opens.dollar_mem (hopens : Opens a s opening tail) : '$' ∈ s.text.toList := by
  simp [hopens.text_eq]

/-- A token has one opening. -/
theorem Opens.unique {opening' tail' : List Char} (hopens : Opens a s opening tail)
    (hopens' : Opens b s opening' tail') : opening = opening' ∧ tail = tail' := by
  obtain ⟨p, hp, hptext, rfl, hprest⟩ := hopens.ends
  obtain ⟨q, hq, hqtext, rfl, hqrest⟩ := hopens'.ends
  obtain rfl := Pieces.text_inj hp hq (hptext.trans hqtext.symm)
  exact ⟨rfl, (List.cons.inj (hprest.symm.trans hqrest)).2⟩

/-- A text that agrees with another one up to the dollar of its salt has the same opening. -/
theorem Opens.of_agrees (hopens : Opens a s opening tail) (hstored : ofBytes b = .ok t)
    (hagrees : t.text.toList = opening ++ '$' :: other) : Opens b t opening other := by
  obtain ⟨h, hparse⟩ := hopens.read
  obtain ⟨p, hcut, htext, rfl, hrest⟩ := hopens.ends
  have hsame : (p.withTail other).text = t.text := by
    apply String.toList_inj.mp
    rw [Pieces.toList_text_eq_opening, hagrees]
    rfl
  refine ⟨hstored, ⟨h, ?_⟩, p.withTail other, hcut.withTail hrest other, hsame, rfl, rfl⟩
  rw [← hsame]
  exact hcut.parse_withTail hrest (htext ▸ hparse) other

theorem ofBytes_encode (text : String) : ofBytes (Utf8.encode text) = .ok ⟨text⟩ := by
  rw [ofBytes, Utf8.decode?_encode]

/-- A valid header is an opening. -/
theorem opens_render {h : Header} (hvalid : h.Valid) (more : String) :
    Opens (Utf8.encode (h.render ++ "$" ++ more)) ⟨h.render ++ "$" ++ more⟩ h.render.toList
      more.toList := by
  have htext : (h.pieces ('$' :: more.toList)).text = h.render ++ "$" ++ more := by
    rw [text_pieces]
    apply String.toList_inj.mp
    simp
  have hopening : (h.pieces ('$' :: more.toList)).opening = h.render.toList := by
    have hsame := congrArg String.toList (text_pieces h ('$' :: more.toList))
    rw [Pieces.toList_text_eq_opening, String.toList_append, String.toList_ofList] at hsame
    exact List.append_cancel_right hsame
  refine ⟨ofBytes_encode _, ⟨h, ?_⟩, _, cut_pieces hvalid (by simp), htext, hopening, rfl⟩
  rw [String.append_assoc]
  exact parse_render_append hvalid (by simp)

/-- Behind one opening, tails are shown alike if their fields are the same but for the last. -/
theorem Opens.redacted_eq_iff (hs : Opens a s opening tail) (ht : Opens b t opening other) :
    s.redacted = t.redacted ↔ shownFields tail = shownFields other := by
  rw [Token.redacted_eq_iff hs.dollar_mem ht.dollar_mem, hs.text_eq, ht.text_eq,
    shownFields_append, shownFields_append, List.append_cancel_left_eq]

/-- Only the opening is shown exactly if no dollar follows that of the salt. -/
theorem Opens.redacted_eq_opening_iff (hs : Opens a s opening tail) :
    s.redacted = "CryptToken(" ++ String.ofList opening ++ "$...)" ↔ '$' ∉ tail := by
  rw [redacted_eq_iff_front, ← splitOn_inj, splitOn_beforeLastDollar hs.dollar_mem, hs.text_eq,
    shownFields_append, List.append_right_eq_self, shownFields_eq_nil_iff]

/-- Behind the salt of a token that is made under a valid header stands its digest alone. -/
theorem Opens.dollar_not_mem_of_token {h : Header} {secret : Bytes} (hs : Opens a s opening tail)
    (hvalid : h.Valid) (htoken : h.token secret = .ok s.text) : '$' ∉ tail := by
  rw [token_of_valid hvalid] at htoken
  obtain ⟨text⟩ := s
  obtain rfl := Except.ok.inj htoken
  rw [(hs.unique (opens_render hvalid (h.digest secret))).2]
  exact h.dollar_not_mem_digest secret

/-- **Of what stands behind its salt, all fields but the last are shown.** A stored text that agrees
with one that is read, up to the dollar that ends the salt there, is read too, and its salt ends at
that dollar. The two are shown alike exactly if the fields behind the dollar are the same but for
the last one. So what follows the dollar is hidden exactly if it is a single field, as the digest is
in every token that is made under a valid header. -/
theorem fields_shown_but_last {x y : List Char} (hs : Opens a s opening x)
    (hstored : ofBytes b = .ok t) (hagrees : t.text.toList = opening ++ '$' :: y) :
    Opens b t opening y ∧ (s.redacted = t.redacted ↔ shownFields x = shownFields y) ∧
      (s.redacted = "CryptToken(" ++ String.ofList opening ++ "$...)" ↔ '$' ∉ x) ∧
      ∀ {h : Header} {secret : Bytes}, h.Valid → h.token secret = .ok s.text → '$' ∉ x := by
  have ht := hs.of_agrees hstored hagrees
  refine ⟨ht, hs.redacted_eq_iff ht, hs.redacted_eq_opening_iff, ?_⟩
  intro h secret hvalid htoken
  exact hs.dollar_not_mem_of_token hvalid htoken

/-- Three fields behind a salt with a foreign character: the last one is hidden, the one before it
and the digest are shown. Of a token that is made under the header of that text, no more than the
header is shown. -/
theorem shown_of_threeFields :
    Opens (Utf8.encode "$5$rounds=010$salt=x$digest$more$end")
        ⟨"$5$rounds=010$salt=x$digest$more$end"⟩ "$5$rounds=010$salt=x".toList
        "digest$more$end".toList ∧
      redacted ⟨"$5$rounds=010$salt=x$digest$more$end"⟩ =
        redacted ⟨"$5$rounds=010$salt=x$digest$more$"⟩ ∧
      redacted ⟨"$5$rounds=010$salt=x$digest$more$end"⟩ ≠
        redacted ⟨"$5$rounds=010$salt=x$digest$less$end"⟩ ∧
      redacted ⟨"$5$rounds=010$salt=x$digest$more$end"⟩ ≠
        "CryptToken(" ++ String.ofList "$5$rounds=010$salt=x".toList ++ "$...)" ∧
      redacted ⟨(⟨.sha256, 1000, true, "salt"⟩ : Header).render ++ "$" ++
          (⟨.sha256, 1000, true, "salt"⟩ : Header).digest []⟩ =
        "CryptToken(" ++ String.ofList "$5$rounds=1000$salt".toList ++ "$...)" := by
  have hparse : parse "$5$rounds=010$salt=x$digest$more$end" =
      .ok ⟨.sha256, 1000, true, "salt"⟩ := rfl
  have hopens : Opens (Utf8.encode "$5$rounds=010$salt=x$digest$more$end")
      ⟨"$5$rounds=010$salt=x$digest$more$end"⟩ "$5$rounds=010$salt=x".toList
      "digest$more$end".toList := by
    refine ⟨ofBytes_encode _, ⟨_, hparse⟩,
      ⟨.sha256, some "010".toList, "salt=x".toList, "$digest$more$end".toList⟩,
      ⟨?_, ?_, ?_, ?_⟩, rfl, rfl, rfl⟩
    · intro digits hdigits
      cases hdigits
      simp
    · intro hnone
      cases hnone
    · simp
    · simp
  obtain ⟨-, hlast, hopening, -⟩ :=
    fields_shown_but_last hopens (ofBytes_encode "$5$rounds=010$salt=x$digest$more$") rfl
  obtain ⟨-, hbefore, -, -⟩ :=
    fields_shown_but_last hopens (ofBytes_encode "$5$rounds=010$salt=x$digest$less$end") rfl
  have hvalid := valid_of_parse hparse
  have hmade := opens_render hvalid ((⟨.sha256, 1000, true, "salt"⟩ : Header).digest [])
  obtain ⟨-, -, hheader, hdigest⟩ :=
    fields_shown_but_last hmade (ofBytes_encode "$5$rounds=1000$salt$") rfl
  refine ⟨hopens, hlast.mpr (by decide), ?_, ?_, ?_⟩
  · exact fun hsame => absurd (hbefore.mp hsame) (by decide)
  · exact fun hsame => absurd (hopening.mp hsame) (by decide)
  · exact hheader.mpr (hdigest hvalid (token_of_valid hvalid []))

/-- A dollar behind a digest makes the digest a field before the last one, and it is shown. -/
theorem digest_shown_of_strayDollar :
    Opens (Utf8.encode "$6$abcdefgh$secretdigest") ⟨"$6$abcdefgh$secretdigest"⟩
        "$6$abcdefgh".toList "secretdigest".toList ∧
      Opens (Utf8.encode "$6$abcdefgh$secretdigest$") ⟨"$6$abcdefgh$secretdigest$"⟩
        "$6$abcdefgh".toList "secretdigest$".toList ∧
      redacted ⟨"$6$abcdefgh$secretdigest"⟩ = "CryptToken($6$abcdefgh$...)" ∧
      redacted ⟨"$6$abcdefgh$secretdigest$"⟩ = "CryptToken($6$abcdefgh$secretdigest$...)" ∧
      redacted ⟨"$6$abcdefgh$secretdigest"⟩ ≠ redacted ⟨"$6$abcdefgh$secretdigest$"⟩ := by
  have hparse : parse "$6$abcdefgh" = .ok ⟨.sha512, 5000, false, "abcdefgh"⟩ := rfl
  have hopens := opens_render (valid_of_parse hparse)
  exact ⟨hopens "secretdigest", hopens "secretdigest$", by decide, by decide, by decide⟩

end Token

end AccessControl
