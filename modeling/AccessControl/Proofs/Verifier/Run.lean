import Mathlib.Data.List.Dedup
import AccessControl.Proofs.Verifier.Check

/-!
Runs of a verifier.

* `run_append`, `run_getElem?`: a run goes on where the run before it ended, and the answer at a
  place is that of the operation there, asked after all operations before it.
* `step_frame`, `run_frame`: configuration, hasher, key secret and bounds are the ones of the
  set-up, whatever is asked.
* `StrictClock`: the clock grows from one operation to the next; `ForwardClock`: it never goes back.
* `Presented` and the two forms of key separation: which checks a run asks for, and what must not
  collide among their keys. For a given run this can be computed (`pairsSeparated_of_nodup`).
-/

namespace AccessControl.Verifier

variable {σ : Type}

/-! ### Setting up -/

/-- A verifier that could be set up has a valid configuration, everything it was given, and an
empty cache. -/
theorem setUp_eq_ok {config : Config} {hasher : Hasher σ} {hashing : σ} {keySecret : Bytes}
    {runtime : Bool} {v : Verifier σ}
    (h : setUp config hasher hashing keySecret runtime = .ok v) :
    config.validate = .ok () ∧ v.config = config ∧ v.hasher = hasher ∧ v.hashing = hashing ∧
      v.keySecret = keySecret ∧ v.cache = .empty config.bounds := by
  unfold setUp at h
  cases hvalid : config.validate with
  | error error => simp [hvalid] at h
  | ok _ =>
      simp only [hvalid] at h
      split at h
      · cases h
      · cases h
        exact ⟨rfl, rfl, rfl, rfl, rfl, rfl⟩

/-! ### One operation -/

theorem step_verify (v : Verifier σ) (asked answered : Nat) (secret stored : Bytes) :
    v.step ⟨asked, answered, .verify secret stored⟩ =
      (.verdict (v.verify asked answered secret stored).1,
        (v.verify asked answered secret stored).2) := rfl

theorem step_create (v : Verifier σ) (asked answered : Nat) (secret : Bytes) :
    v.step ⟨asked, answered, .create secret⟩ =
      (.token (v.createCredential secret).1, (v.createCredential secret).2) := rfl

/-! ### What stays as it was set up -/

/-- Making a token calls the hasher once and does nothing else to the verifier. -/
theorem createCredential_snd (v : Verifier σ) (secret : Bytes) :
    (v.createCredential secret).2 =
      { v with hashing := (v.hasher.crypt secret none v.hashing).2 } := by
  unfold createCredential
  cases hanswer : (v.hasher.crypt secret none v.hashing).1 <;> simp [hanswer]

theorem check_frame (v : Verifier σ) (now : Nat) (secret stored : Bytes) :
    (v.check now secret stored).2.config = v.config ∧
      (v.check now secret stored).2.hasher = v.hasher ∧
      (v.check now secret stored).2.keySecret = v.keySecret ∧
      (v.check now secret stored).2.cache.bounds = v.cache.bounds := by
  rcases check_cases v now secret stored with ⟨-, hcheck⟩ | ⟨text, -, ⟨-, hcheck⟩ | ⟨-, hcheck⟩⟩
  · rw [hcheck]
    exact ⟨rfl, rfl, rfl, rfl⟩
  · rw [hcheck]
    exact ⟨rfl, rfl, rfl, rfl⟩
  · rw [hcheck]
    exact ⟨rfl, rfl, rfl, rfl⟩

/-- No operation changes the configuration, the hasher, the key secret or the bounds. -/
theorem step_frame (v : Verifier σ) (e : Event) :
    (v.step e).2.config = v.config ∧ (v.step e).2.hasher = v.hasher ∧
      (v.step e).2.keySecret = v.keySecret ∧ (v.step e).2.cache.bounds = v.cache.bounds := by
  obtain ⟨asked, answered, op⟩ := e
  cases op with
  | verify secret stored =>
      by_cases hrecalls : v.Recalls asked secret stored
      · rw [step_verify, verify_of_recalls hrecalls]
        exact ⟨rfl, rfl, rfl, rfl⟩
      · rw [step_verify, verify_of_not_recalls hrecalls]
        exact check_frame _ answered secret stored
  | create secret =>
      rw [step_create, createCredential_snd]
      exact ⟨rfl, rfl, rfl, rfl⟩
  | cacheSize => exact ⟨rfl, rfl, rfl, rfl⟩
  | clearCache => exact ⟨rfl, rfl, rfl, rfl⟩
  | shutdown => exact ⟨rfl, rfl, rfl, rfl⟩
  | sweep => exact ⟨rfl, rfl, rfl, rfl⟩

/-- No run changes the configuration, the hasher, the key secret or the bounds. -/
theorem run_frame (v : Verifier σ) (events : List Event) :
    (v.run events).2.config = v.config ∧ (v.run events).2.hasher = v.hasher ∧
      (v.run events).2.keySecret = v.keySecret ∧
      (v.run events).2.cache.bounds = v.cache.bounds := by
  induction events generalizing v with
  | nil => exact ⟨rfl, rfl, rfl, rfl⟩
  | cons e rest ih =>
      obtain ⟨hconfig, hhasher, hkey, hbounds⟩ := step_frame v e
      obtain ⟨ihconfig, ihhasher, ihkey, ihbounds⟩ := ih (v.step e).2
      exact ⟨ihconfig.trans hconfig, ihhasher.trans hhasher, ihkey.trans hkey,
        ihbounds.trans hbounds⟩

/-! ### One operation after another -/

@[simp] theorem run_nil (v : Verifier σ) : v.run [] = ([], v) := rfl

@[simp] theorem run_cons (v : Verifier σ) (e : Event) (rest : List Event) :
    v.run (e :: rest) =
      ((v.step e).1 :: ((v.step e).2.run rest).1, ((v.step e).2.run rest).2) := rfl

/-- A run goes on where the one before it ended. -/
theorem run_append (v : Verifier σ) (before after : List Event) :
    v.run (before ++ after) =
      ((v.run before).1 ++ ((v.run before).2.run after).1, ((v.run before).2.run after).2) := by
  induction before generalizing v with
  | nil => rfl
  | cons e rest ih => simp [ih]

/-- There is one answer for each operation. -/
theorem length_run (v : Verifier σ) (events : List Event) :
    (v.run events).1.length = events.length := by
  induction events generalizing v with
  | nil => rfl
  | cons e rest ih => simp [ih]

/-- The answer at a place of a run. -/
theorem run_getElem? (v : Verifier σ) (events : List Event) (i : Nat) :
    (v.run events).1[i]? = events[i]?.map fun e => ((v.run (events.take i)).2.step e).1 := by
  induction events generalizing v i with
  | nil => rfl
  | cons e rest ih =>
      cases i with
      | zero => rfl
      | succ i => simpa using ih (v.step e).2 i

/-! ### The clock of a run -/

/-- The clock grows from one operation to the next, stands still within each, and has not reached
its end. -/
structure StrictClock (events : List Event) : Prop where
  increasing : events.Pairwise fun earlier later => earlier.asked < later.asked
  still : ∀ e ∈ events, e.answered = e.asked
  below : ∀ e ∈ events, e.asked < Clock.limit

/-- A clock that is strict over a run is strict over every part of it. -/
theorem StrictClock.sublist {part events : List Event} (h : StrictClock events)
    (hsub : part.Sublist events) : StrictClock part :=
  ⟨h.increasing.sublist hsub, fun e he => h.still e (hsub.subset he),
    fun e he => h.below e (hsub.subset he)⟩

/-- The clock never goes back, neither between operations nor within one, and has not reached its
end. -/
structure ForwardClock (events : List Event) : Prop where
  ordered : events.Pairwise fun earlier later => earlier.answered ≤ later.asked
  forward : ∀ e ∈ events, e.asked ≤ e.answered
  below : ∀ e ∈ events, e.answered < Clock.limit

instance (events : List Event) : Decidable (ForwardClock events) :=
  decidable_of_iff (events.Pairwise (fun earlier later => earlier.answered ≤ later.asked) ∧
      (∀ e ∈ events, e.asked ≤ e.answered) ∧ ∀ e ∈ events, e.answered < Clock.limit)
    ⟨fun h => ⟨h.1, h.2.1, h.2.2⟩, fun h => ⟨h.ordered, h.forward, h.below⟩⟩

/-- A clock that goes forward over a run does so over every part of it. -/
theorem ForwardClock.sublist {part events : List Event} (h : ForwardClock events)
    (hsub : part.Sublist events) : ForwardClock part :=
  ⟨h.ordered.sublist hsub, fun e he => h.forward e (hsub.subset he),
    fun e he => h.below e (hsub.subset he)⟩

/-! ### What is presented -/

/-- A run asks for the check of a secret against a stored token. -/
def Presented (events : List Event) (secret stored : Bytes) : Prop :=
  ∃ e ∈ events, e.op = .verify secret stored

/-- No two different secrets that are presented with one stored token have the same key. -/
def SecretsSeparated (keySecret : Bytes) (events : List Event) : Prop :=
  ∀ secret₁ secret₂ stored, Presented events secret₁ stored → Presented events secret₂ stored →
    CacheKey.derive keySecret secret₁ stored = CacheKey.derive keySecret secret₂ stored →
    secret₁ = secret₂

/-- No two different pairs of secret and stored token that are presented have the same key. -/
def PairsSeparated (keySecret : Bytes) (events : List Event) : Prop :=
  ∀ p q : Bytes × Bytes, Presented events p.1 p.2 → Presented events q.1 q.2 →
    CacheKey.derive keySecret p.1 p.2 = CacheKey.derive keySecret q.1 q.2 → p = q

/-- The pairs that are presented, in order. -/
def presentedPairs (events : List Event) : List (Bytes × Bytes) :=
  events.filterMap fun e =>
    match e.op with
    | .verify secret stored => some (secret, stored)
    | _ => none

theorem mem_presentedPairs {events : List Event} {pair : Bytes × Bytes}
    (h : Presented events pair.1 pair.2) : pair ∈ presentedPairs events := by
  obtain ⟨e, he, hop⟩ := h
  refine List.mem_filterMap.mpr ⟨e, he, ?_⟩
  rw [hop]

variable {keySecret : Bytes} {events : List Event}

/-- Separation of a given run can be found out by deriving its keys. -/
theorem pairsSeparated_of_nodup
    (h : ((presentedPairs events).dedup.map fun pair =>
      CacheKey.derive keySecret pair.1 pair.2).Nodup) : PairsSeparated keySecret events := by
  intro p q hp hq hsame
  exact List.inj_on_of_nodup_map h (List.mem_dedup.mpr (mem_presentedPairs hp))
    (List.mem_dedup.mpr (mem_presentedPairs hq)) hsame

/-- Separated pairs have separated secrets. -/
theorem PairsSeparated.secretsSeparated (h : PairsSeparated keySecret events) :
    SecretsSeparated keySecret events := by
  intro secret₁ secret₂ stored h₁ h₂ hsame
  exact congrArg Prod.fst (h (secret₁, stored) (secret₂, stored) h₁ h₂ hsame)

end AccessControl.Verifier
