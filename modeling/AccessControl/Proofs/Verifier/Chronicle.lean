import AccessControl.Proofs.Verifier.Run

/-!
What a run does, with the calls of the hasher.

`Hasher.logging` keeps the calls of a hasher beside its state, whatever the hasher is. The
chronicle of a run tells of each operation what was asked, what was answered, and which calls it
made.

* `map_answer_chronicle`, `run_unlogged`: the answers are those of the run, also of the run without
  the log.
* `calls_of_recalls`, `calls_of_not_recalls`: a recalled success makes no call; any other check makes
  one if the stored token is a text.
* `calls_of_success`: a check that is true without a recalled success made one call, and the hasher
  gave the stored token back.
-/

namespace AccessControl

/-- One call of a hasher, with its answer. -/
structure HashCall where
  secret : Bytes
  existing : Option String
  answer : Except HashError String

/-- The hasher, with its calls kept beside its state, the first one in front. -/
def Hasher.logging {σ : Type} (hasher : Hasher σ) : Hasher (List HashCall × σ) where
  crypt secret existing state :=
    let (answer, rest) := hasher.crypt secret existing state.2
    (answer, state.1 ++ [⟨secret, existing, answer⟩], rest)

namespace Verifier

variable {σ : Type}

/-- An operation of a run: what was asked, the answer, and the calls of the hasher it made. -/
structure Deed where
  event : Event
  answer : Answer
  calls : List HashCall

/-- What a verifier does when it is asked. The calls are those that the log did not have before. -/
def deed (v : Verifier (List HashCall × σ)) (e : Event) : Deed :=
  ⟨e, (v.step e).1, (v.step e).2.hashing.1.drop v.hashing.1.length⟩

/-- What a verifier does in a run, in order. -/
def chronicle (v : Verifier (List HashCall × σ)) : List Event → List Deed
  | [] => []
  | e :: rest => v.deed e :: chronicle (v.step e).2 rest

theorem chronicle_append_singleton (v : Verifier (List HashCall × σ)) (before : List Event)
    (e : Event) :
    v.chronicle (before ++ [e]) = v.chronicle before ++ [(v.run before).2.deed e] := by
  induction before generalizing v with
  | nil => rfl
  | cons first rest ih => simp [chronicle, ih]

/-- The deed at a place of a run is done after all operations before it. -/
theorem chronicle_getElem? (v : Verifier (List HashCall × σ)) (events : List Event) (i : Nat) :
    (v.chronicle events)[i]? = events[i]?.map (v.run (events.take i)).2.deed := by
  induction events generalizing v i with
  | nil => rfl
  | cons e rest ih =>
      cases i with
      | zero => rfl
      | succ i => simpa [chronicle] using ih (v.step e).2 i

/-- What was done up to a place of a run is what the run up to there does. -/
theorem chronicle_take (v : Verifier (List HashCall × σ)) (events : List Event) (i : Nat) :
    (v.chronicle events).take i = v.chronicle (events.take i) := by
  induction events generalizing v i with
  | nil => simp [chronicle]
  | cons e rest ih =>
      cases i with
      | zero => rfl
      | succ i => simp [chronicle, ih]

/-- The answers in the chronicle are those of the run. -/
theorem map_answer_chronicle (v : Verifier (List HashCall × σ)) (events : List Event) :
    (v.chronicle events).map Deed.answer = (v.run events).1 := by
  induction events generalizing v with
  | nil => rfl
  | cons e rest ih =>
      rw [chronicle, List.map_cons, ih, run_cons]
      rfl

/-- The operations in the chronicle are those of the run. -/
theorem map_event_chronicle (v : Verifier (List HashCall × σ)) (events : List Event) :
    (v.chronicle events).map Deed.event = events := by
  induction events generalizing v with
  | nil => rfl
  | cons e rest ih =>
      rw [chronicle, List.map_cons, ih]
      rfl

/-! ### Without the log -/

/-- The verifier as it is without a log, with a hasher that keeps none. -/
def unlogged (v : Verifier (List HashCall × σ)) (hasher : Hasher σ) : Verifier σ :=
  ⟨v.config, hasher, v.hashing.2, v.keySecret, v.cache, v.sweeper⟩

section Unlogged

variable {hasher : Hasher σ} {v : Verifier (List HashCall × σ)}

theorem verify_unlogged (h : v.hasher = hasher.logging) (asked answered : Nat)
    (secret stored : Bytes) :
    (v.unlogged hasher).verify asked answered secret stored =
      ((v.verify asked answered secret stored).1,
        (v.verify asked answered secret stored).2.unlogged hasher) := by
  apply verify_rehash (f := Prod.snd)
  rw [h]
  intro secret text state
  rfl

/-- One operation answers the same without the log. -/
theorem step_unlogged (h : v.hasher = hasher.logging) (e : Event) :
    (v.unlogged hasher).step e = ((v.step e).1, (v.step e).2.unlogged hasher) := by
  obtain ⟨asked, answered, op⟩ := e
  cases op with
  | verify secret stored => rw [step_verify, step_verify, verify_unlogged h]
  | create secret =>
      obtain ⟨config, _, ⟨log, hashing⟩, keySecret, cache, sweeper⟩ := v
      cases h
      rw [step_create, step_create]
      unfold createCredential unlogged
      cases hanswer : (hasher.crypt secret none hashing).1 with
      | error error => simp [hanswer]
      | ok text => simp [hanswer]
  | cacheSize => rfl
  | clearCache => rfl
  | shutdown => rfl
  | sweep => rfl

/-- A run answers the same without the log. -/
theorem run_unlogged (h : v.hasher = hasher.logging) (events : List Event) :
    ((v.unlogged hasher).run events).1 = (v.run events).1 := by
  induction events generalizing v with
  | nil => rfl
  | cons e rest ih =>
      have hnext : (v.step e).2.hasher = hasher.logging := (step_frame v e).2.1.trans h
      rw [run_cons, run_cons, step_unlogged h, ih hnext]

end Unlogged

/-! ### The calls of a check -/

variable {hasher : Hasher σ} {v : Verifier (List HashCall × σ)} {asked : Nat}
  {secret stored : Bytes}

theorem logging_crypt (hasher : Hasher σ) (secret : Bytes) (existing : Option String)
    (state : List HashCall × σ) :
    (hasher.logging.crypt secret existing state).2.1 =
      state.1 ++ [⟨secret, existing, (hasher.logging.crypt secret existing state).1⟩] := rfl

/-- What leaves the hasher in its state has made no call. -/
theorem calls_of_still {e : Event} (hstill : (v.step e).2.hashing = v.hashing) :
    (v.deed e).calls = [] := by
  rw [deed, hstill]
  exact List.drop_length

/-- A recalled success makes no call. -/
theorem calls_of_recalls (answered : Nat) (h : v.Recalls asked secret stored) :
    (v.deed ⟨asked, answered, .verify secret stored⟩).calls = [] := by
  apply calls_of_still
  rw [step_verify, verify_of_recalls h]

/-- A check that recalls nothing calls the hasher once if the stored token is a text, and not at all
otherwise. -/
theorem calls_of_not_recalls (answered : Nat) (hhasher : v.hasher = hasher.logging)
    (h : ¬ v.Recalls asked secret stored) :
    (v.deed ⟨asked, answered, .verify secret stored⟩).calls =
      match Utf8.decode? stored with
      | none => []
      | some text => [⟨secret, some text, (v.hasher.crypt secret (some text) v.hashing).1⟩] := by
  rw [deed, step_verify, verify_of_not_recalls h, check_hashing]
  cases Utf8.decode? stored with
  | none => exact List.drop_length
  | some text =>
      simp only [hhasher]
      rw [logging_crypt, List.drop_left]

/-- A check that is true without a recalled success made one call, and the hasher gave the stored
token back. -/
theorem calls_of_success (answered : Nat) (hhasher : v.hasher = hasher.logging)
    (h : ¬ v.Recalls asked secret stored)
    (htrue : (v.verify asked answered secret stored).1 = true) :
    ∃ text, Utf8.encode text = stored ∧
      (v.deed ⟨asked, answered, .verify secret stored⟩).calls =
        [⟨secret, some text, .ok text⟩] := by
  have hcalls := calls_of_not_recalls answered hhasher h
  rw [verify_of_not_recalls h] at htrue
  rcases check_cases { v with cache := v.cache.erase (v.key secret stored) } answered secret
    stored with ⟨-, hcheck⟩ | ⟨text, htext, ⟨hok, -⟩ | ⟨-, hcheck⟩⟩
  · simp [hcheck] at htrue
  · have hanswer : (v.hasher.crypt secret (some text) v.hashing).1 = .ok text := hok
    simp only [htext, hanswer] at hcalls
    exact ⟨text, Utf8.decode?_eq_some_iff.mp htext, hcalls⟩
  · simp [hcheck] at htrue

end Verifier

end AccessControl
