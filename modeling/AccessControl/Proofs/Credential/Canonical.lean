import AccessControl.Credential.Hasher
import AccessControl.Proofs.Credential.Pieces

/-!
Which stored texts are accepted.

A check derives the token again from what the header says and compares the texts. The reader of
headers is lenient, the writer is not; so the stored text must be what the writer writes for some
valid header, with the digest of the secret behind it and nothing else. `Flawed` collects the ways
in which a text with a known tag can fail to be of this form.

Main statement: `accepted_iff_canonical`.
-/

namespace AccessControl

open ShaCrypt (Algorithm)

/-! ### Digests -/

namespace ShaCrypt

theorem length_sixBits (count n : Nat) : (sixBits count n).length = count := by
  induction count generalizing n with
  | zero => rfl
  | succ count ih => rw [sixBits, List.length_cons, ih]

/-- The characters in which the digests of an algorithm are written. -/
def digestLength : Algorithm → Nat
  | .sha256 => 43
  | .sha512 => 86

theorem length_digestText (algorithm : Algorithm) (secret salt : Bytes) (rounds : Nat) :
    (digestText algorithm secret salt rounds).length = digestLength algorithm := by
  cases algorithm with
  | sha256 => simp [digestText, groupText, Algorithm.groups, length_sixBits, digestLength]
  | sha512 => simp [digestText, groupText, Algorithm.groups, length_sixBits, digestLength]

theorem isSaltChar_of_mem_sixBits (count n : Nat) :
    ∀ c ∈ sixBits count n, Header.isSaltChar c = true := by
  induction count generalizing n with
  | zero => exact fun c hc => absurd hc List.not_mem_nil
  | succ count ih =>
      intro c hc
      rcases List.mem_cons.mp hc with rfl | hc
      · exact Header.isSaltChar_alphabet ⟨n % 64, Nat.mod_lt n (by decide)⟩
      · exact ih (n / 64) c hc

end ShaCrypt

namespace Header

variable {h : Header}

/-- The digest of a secret under a header. -/
def digest (h : Header) (secret : Bytes) : String :=
  String.ofList (ShaCrypt.digestText h.algorithm secret (Utf8.encode h.salt) h.rounds)

theorem length_digest (h : Header) (secret : Bytes) :
    (h.digest secret).length = ShaCrypt.digestLength h.algorithm := by
  rw [digest, String.length_ofList, ShaCrypt.length_digestText]

/-- A digest is one field: it is written in the characters of salts. -/
theorem dollar_not_mem_digest (h : Header) (secret : Bytes) : '$' ∉ (h.digest secret).toList := by
  intro hmem
  rw [digest, String.toList_ofList, ShaCrypt.digestText, List.mem_flatMap] at hmem
  obtain ⟨group, -, hmem⟩ := hmem
  have hchar := ShaCrypt.isSaltChar_of_mem_sixBits _ _ '$' hmem
  rw [isSaltChar_dollar] at hchar
  cases hchar

/-- A valid header has a token for every secret. -/
theorem token_of_valid (hvalid : h.Valid) (secret : Bytes) :
    h.token secret = .ok (h.render ++ "$" ++ h.digest secret) :=
  if_pos (digest_range_iff.mpr ⟨hvalid.rounds_ge, hvalid.rounds_le⟩)

/-- The pieces of the text that begins with a header. -/
def pieces (h : Header) (rest : List Char) : Pieces :=
  ⟨h.algorithm, if h.customRounds then some (toString h.rounds).toList else none, h.salt.toList,
    rest⟩

theorem text_pieces (h : Header) (rest : List Char) :
    (h.pieces rest).text = h.render ++ String.ofList rest := by
  obtain ⟨algorithm, rounds, customRounds, salt⟩ := h
  apply String.toList_inj.mp
  cases customRounds with
  | true => simp [pieces, Pieces.text, Pieces.body, render]
  | false => simp [pieces, Pieces.text, Pieces.body, render]

theorem cut_pieces (hvalid : h.Valid) {rest : List Char} (hrest : ∀ c ∈ rest.head?, c = '$') :
    (h.pieces rest).Cut := by
  obtain ⟨algorithm, rounds, customRounds, salt⟩ := h
  refine ⟨?_, ?_, ?_, hrest⟩
  · intro digits hdigits
    cases customRounds with
    | true =>
        cases hdigits
        have hfield := hasField_toString rounds rest
        exact ⟨hfield.nonempty, hfield.isDigit⟩
    | false => cases hdigits
  · exact fun _ => not_hasField_of_isSalt hvalid.salt hrest
  · rintro c hc rfl
    have hchar := hvalid.salt.chars '$' hc
    rw [isSaltChar_dollar] at hchar
    cases hchar

end Header

/-! ### Canonical texts -/

section Accepted

open Header

variable {σ : Type} {policy : Policy} {source : SaltSource σ} {state : σ} {secret : Bytes}
  {text : String}

/-- With an existing token a policy only matters for what it makes fresh. -/
theorem Policy.crypt_some (policy : Policy) (source : SaltSource σ) (secret : Bytes) (text : String)
    (state : σ) :
    (policy.hasher source).crypt secret (some text) state =
      (parse text >>= fun header => header.token secret, state) := rfl

/-- A canonical text is derived again as it is. -/
theorem crypt_canonical {h : Header} (hvalid : h.Valid) (secret : Bytes) {rest : String}
    (hrest : ∀ c ∈ rest.toList.head?, c = '$') :
    ((policy.hasher source).crypt secret (some (h.render ++ rest)) state).1 =
      .ok (h.render ++ "$" ++ h.digest secret) := by
  rw [Policy.crypt_some, parse_render_append hvalid hrest]
  exact token_of_valid hvalid secret

theorem crypt_eq_ok_iff :
    ((policy.hasher source).crypt secret (some text) state).1 = .ok text ↔
      ∃ h : Header, h.Valid ∧ text = h.render ++ "$" ++ h.digest secret := by
  constructor
  · intro hok
    rw [Policy.crypt_some] at hok
    obtain ⟨h, hparse, htoken⟩ := bind_eq_ok.mp hok
    have hvalid := valid_of_parse hparse
    rw [token_of_valid hvalid] at htoken
    cases htoken
    exact ⟨h, hvalid, rfl⟩
  · rintro ⟨h, hvalid, rfl⟩
    rw [String.append_assoc]
    rw [crypt_canonical hvalid secret (by simp), String.append_assoc]

/-! ### Texts that are canonical for no secret -/

/-- Numbers are written without zeros in front. -/
theorem head?_toDigits_ne_zero {n : Nat} (hpos : 0 < n) :
    (Nat.toDigits 10 n).head? ≠ some '0' := by
  induction n using Nat.strongRecOn with
  | ind n ih =>
      by_cases hlt : n < 10
      · rw [Nat.toDigits_of_lt_base hlt]
        simpa using Nat.pos_iff_ne_zero.mp hpos
      · have hge : 10 ≤ n := Nat.le_of_not_lt hlt
        have hsome : (Nat.toDigits 10 (n / 10)).head?.isSome = true := by simp
        rw [Nat.toDigits_of_base_le (by decide) hge, List.head?_append, Option.or_of_isSome hsome]
        exact ih (n / 10) (by omega) (by omega)

/-- What can be wrong with the pieces of a text under a known tag, whatever the secret. -/
inductive Pieces.Flaw (p : Pieces) : Prop
  | leadingZero {digits : List Char} (h : p.digits? = some ('0' :: digits))
  | tooFewRounds {digits : List Char} (h : p.digits? = some digits)
    (hrange : Nat.ofDigitChars 10 digits 0 < minRounds)
  | tooManyRounds {digits : List Char} (h : p.digits? = some digits)
    (hrange : maxRounds < Nat.ofDigitChars 10 digits 0)
  | noSalt (h : p.salt = [])
  | longSalt (h : ShaCrypt.saltMax < p.salt.length)
  | foreignSalt {c : Char} (hmem : c ∈ p.salt) (h : isSaltChar c = false)
  | noDigest (h : p.rest = [] ∨ p.rest = ['$'])
  /-- More follows the salt than the dollar and a digest. -/
  | trailing (h : ShaCrypt.digestLength p.algorithm + 1 < p.rest.length)
  /-- There is another dollar behind the one that ends the salt. -/
  | moreFields (h : '$' ∈ p.rest.tail)

/-- A text under a known tag with something wrong in its pieces. -/
def Flawed (text : String) : Prop := ∃ p : Pieces, p.Cut ∧ p.text = text ∧ p.Flaw

/-- The digits that a header has in its text are those of its rounds. -/
theorem digits_of_pieces {h : Header} {rest digits : List Char}
    (hsome : (h.pieces rest).digits? = some digits) : digits = Nat.toDigits 10 h.rounds := by
  unfold pieces at hsome
  split at hsome
  · simpa using hsome.symm
  · cases hsome

/-- Nothing is wrong with the pieces of a canonical text. -/
theorem not_flaw_of_valid {h : Header} (hvalid : h.Valid) (secret : Bytes) :
    ¬ (h.pieces ('$' :: (h.digest secret).toList)).Flaw := by
  have hlength : (h.digest secret).toList.length = ShaCrypt.digestLength h.algorithm := by
    rw [String.length_toList, length_digest]
  have hge := hvalid.rounds_ge
  have hle := hvalid.rounds_le
  intro hflaw
  cases hflaw with
  | @leadingZero digits hzero =>
      refine head?_toDigits_ne_zero (n := h.rounds) (Nat.lt_of_lt_of_le (by decide) hge) ?_
      rw [← digits_of_pieces hzero]
      rfl
  | tooFewRounds hsome hrange =>
      rw [digits_of_pieces hsome, Nat.ofDigitChars_ten_toDigits] at hrange
      exact Nat.lt_irrefl _ (Nat.lt_of_lt_of_le hrange hge)
  | tooManyRounds hsome hrange =>
      rw [digits_of_pieces hsome, Nat.ofDigitChars_ten_toDigits] at hrange
      exact Nat.lt_irrefl _ (Nat.lt_of_lt_of_le hrange hle)
  | noSalt hnil =>
      have hnonempty := hvalid.salt.nonempty
      rw [← String.length_toList, show h.salt.toList = [] from hnil] at hnonempty
      cases hnonempty
  | longSalt hlong => exact Nat.not_lt.mpr hvalid.salt.short hlong
  | foreignSalt hmem hforeign =>
      rw [hvalid.salt.chars _ hmem] at hforeign
      cases hforeign
  | noDigest hrest =>
      have hpos : 0 < ShaCrypt.digestLength h.algorithm := by
        cases h.algorithm <;> decide
      rcases hrest with hrest | hrest
      · cases hrest
      · rw [← hlength, show (h.digest secret).toList = [] from (List.cons.inj hrest).2] at hpos
        cases hpos
  | trailing hlong =>
      have hrest : (h.pieces ('$' :: (h.digest secret).toList)).rest.length =
          ShaCrypt.digestLength h.algorithm + 1 := by
        rw [← hlength]
        rfl
      rw [hrest] at hlong
      exact Nat.lt_irrefl _ hlong
  | moreFields hdollar => exact h.dollar_not_mem_digest secret hdollar

/-- The pieces of an accepted text are those of its header, its dollar and its digest. -/
theorem not_flawed_of_canonical {h : Header} (hvalid : h.Valid) (secret : Bytes) :
    ¬ Flawed (h.render ++ "$" ++ h.digest secret) := by
  rintro ⟨p, hcut, htext, hflaw⟩
  have hsame : (h.pieces ('$' :: (h.digest secret).toList)).text =
      h.render ++ "$" ++ h.digest secret := by
    rw [text_pieces]
    apply String.toList_inj.mp
    simp
  have hpieces := Pieces.text_inj hcut (cut_pieces hvalid fun c hc => by simpa using hc.symm)
    (htext.trans hsame.symm)
  exact not_flaw_of_valid hvalid secret (hpieces ▸ hflaw)

/-- **A stored text is accepted exactly when it is canonical**: a valid header as it is written, a
dollar, and the digest of the secret under that header. So a text whose rounds have a zero in front
or are out of range, whose salt is missing, too long or has a foreign character, or that has no
digest, more than a digest or another field behind the salt is accepted for no secret. -/
theorem accepted_iff_canonical {σ : Type} (policy : Policy) (source : SaltSource σ) (state : σ)
    (text : String) :
    (∀ secret, ((policy.hasher source).crypt secret (some text) state).1 = .ok text ↔
      ∃ h : Header, h.Valid ∧ text = h.render ++ "$" ++ h.digest secret) ∧
    (Flawed text →
      ∀ secret, ((policy.hasher source).crypt secret (some text) state).1 ≠ .ok text) := by
  refine ⟨fun secret => crypt_eq_ok_iff, fun hflawed secret hok => ?_⟩
  obtain ⟨h, hvalid, rfl⟩ := crypt_eq_ok_iff.mp hok
  exact not_flawed_of_canonical hvalid secret hflawed

/-- A source that draws one character over and over. -/
def SaltSource.constant (value : Fin 64) : SaltSource Unit := ⟨fun state => (value, state)⟩

/-- A zero in front of the rounds is not written back, so no secret fits. -/
theorem not_accepted_of_leadingZero :
    Flawed "$6$rounds=01000$salt$digest" ∧
      ∀ secret, ((Policy.default.hasher (SaltSource.constant 0)).crypt secret
        (some "$6$rounds=01000$salt$digest") ()).1 ≠ .ok "$6$rounds=01000$salt$digest" := by
  have hflawed : Flawed "$6$rounds=01000$salt$digest" := by
    refine ⟨⟨.sha512, some "01000".toList, "salt".toList, "$digest".toList⟩, ⟨?_, ?_, ?_, ?_⟩, rfl,
      .leadingZero rfl⟩
    · intro digits hdigits
      cases hdigits
      simp
    · intro hnone
      cases hnone
    · simp
    · simp
  exact ⟨hflawed, (accepted_iff_canonical Policy.default (SaltSource.constant 0) () _).2 hflawed⟩

end Accepted

end AccessControl
