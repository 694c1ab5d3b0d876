import AccessControl.Proofs.Credential.Header

/-!
One text for each header.

Many texts are read as one header: rounds may have zeros in front or lie out of range, salts may be
too long, and whatever follows the salt is ignored. `normalize` replaces a text by the header that
is read from it, as it is written. This is the only text of the header, since no text begins with
two valid headers (`render_append_inj`).

Main statement: `header_roundTrip`.
-/

namespace AccessControl.Header

/-- The text with the header that is read from it, as it is written, in its place. A text that is
refused stays as it is. -/
def normalize (text : String) : String :=
  match parse text with
  | .ok h => h.render
  | .error _ => text

variable {h k : Header} {text : String}

theorem normalize_of_parse (hparse : parse text = .ok h) : normalize text = h.render := by
  rw [normalize, hparse]

/-- A valid header is read back from its own text. -/
theorem parse_render (hvalid : h.Valid) : parse h.render = .ok h := by
  have hread : parse (h.render ++ "") = .ok h := parse_render_append hvalid (by simp)
  rwa [String.append_empty] at hread

/-- No text begins with two valid headers, each of which ends there or at a dollar. -/
theorem render_append_inj (hh : h.Valid) (hk : k.Valid) {rest rest' : String}
    (hrest : ∀ c ∈ rest.toList.head?, c = '$') (hrest' : ∀ c ∈ rest'.toList.head?, c = '$')
    (hsame : h.render ++ rest = k.render ++ rest') : h = k := by
  have hread := parse_render_append hh hrest
  rw [hsame, parse_render_append hk hrest'] at hread
  exact (Except.ok.inj hread).symm

/-- The normal form of a text is read as the text is. -/
theorem parse_normalize (hparse : parse text = .ok h) : parse (normalize text) = .ok h := by
  rw [normalize_of_parse hparse]
  exact parse_render (valid_of_parse hparse)

theorem normalize_normalize (hparse : parse text = .ok h) :
    normalize (normalize text) = normalize text := by
  rw [normalize_of_parse (parse_normalize hparse), normalize_of_parse hparse]

/-- What is empty or begins with a dollar has nothing but a dollar in front. -/
theorem head?_of_empty_or_dollar {rest : String} (h : rest = "" ∨ ∃ more, rest = "$" ++ more) :
    ∀ c ∈ rest.toList.head?, c = '$' := by
  intro c hc
  rcases h with rfl | ⟨more, rfl⟩
  · cases hc
  · simpa using hc.symm

/-- **Headers and their texts.** Whatever is read is a valid header. A valid header is read back from
its text, whether the text ends there or goes on at a dollar; so valid headers have different
texts. To replace an accepted text by the text of its header changes nothing of what is read, and
to do so again changes nothing at all. -/
theorem header_roundTrip :
    (∀ {text : String} {h : Header}, parse text = .ok h → h.Valid) ∧
    (∀ {h : Header} {rest : String}, h.Valid → (rest = "" ∨ ∃ more, rest = "$" ++ more) →
      parse (h.render ++ rest) = .ok h) ∧
    (∀ {h k : Header}, h.Valid → k.Valid → h.render = k.render → h = k) ∧
    (∀ {text : String} {h : Header}, parse text = .ok h →
      normalize text = h.render ∧ parse (normalize text) = .ok h ∧
        normalize (normalize text) = normalize text) := by
  refine ⟨?_, ?_, ?_, ?_⟩
  · intro text h hparse
    exact valid_of_parse hparse
  · intro h rest hvalid hrest
    exact parse_render_append hvalid (head?_of_empty_or_dollar hrest)
  · intro h k hh hk hsame
    have htexts : h.render ++ "" = k.render ++ "" := by rw [hsame]
    exact render_append_inj hh hk (by simp) (by simp) htexts
  · intro text h hparse
    exact ⟨normalize_of_parse hparse, parse_normalize hparse, normalize_normalize hparse⟩

/-- Rounds that are too few and have a zero in front, with a salt that looks like another rounds
field: the salt ends at the equality sign, and the normal form is read like the text. -/
theorem normalized_of_lenient :
    parse "$5$rounds=010$rounds=1$digest" = .ok ⟨.sha256, 1000, true, "rounds"⟩ ∧
      Valid ⟨.sha256, 1000, true, "rounds"⟩ ∧
      normalize "$5$rounds=010$rounds=1$digest" = "$5$rounds=1000$rounds" ∧
      parse (render ⟨.sha256, 1000, true, "rounds"⟩ ++ "$digest") =
        .ok ⟨.sha256, 1000, true, "rounds"⟩ := by
  have hparse : parse "$5$rounds=010$rounds=1$digest" = .ok ⟨.sha256, 1000, true, "rounds"⟩ := rfl
  obtain ⟨hvalid, hread, -, hnormal⟩ := header_roundTrip
  refine ⟨hparse, hvalid hparse, (hnormal hparse).1, ?_⟩
  exact hread (hvalid hparse) (Or.inr ⟨"digest", rfl⟩)

end AccessControl.Header
