import Mathlib.Data.List.Induction
import Mathlib.Order.Bounds.Basic
import AccessControl.Proofs.Verifier.Run

/-!
Configurations that are built from the default one, change by change.

Of each field the last value that is given counts (`lastGiven?`), and of all bounds on entries also
the least, since no more places are set aside than any of them allows (`isLeast_ofChanges`). A
span of time is kept in whole milliseconds, as far as 64 bits count them; `KeptAs` says so without
counting, and what is counted is the only span it fits (`keptAs_iff`).

Main statement: `changes_effect`.
-/

namespace AccessControl

/-! ### Spans in whole milliseconds -/

/-- What is kept of a span: as much of it as whole milliseconds make up, and the most that 64 bits
can count of a span that is too long. -/
structure Duration.KeptAs (given kept : Duration) : Prop where
  whole : ∃ millis, millis < UInt64.size ∧ kept = .ofMillis millis
  le : kept.nanos ≤ given.nanos
  near : given.nanos < UInt64.size * nanosPerMilli → given.nanos < kept.nanos + nanosPerMilli
  capped : UInt64.size * nanosPerMilli ≤ given.nanos → kept = .ofMillis (UInt64.size - 1)

namespace Config

theorem toNat_wholeMillis (d : Duration) :
    (wholeMillis d).toNat = min (d.nanos / Duration.nanosPerMilli) (UInt64.size - 1) :=
  UInt64.toNat_ofNat_of_lt' (Nat.lt_of_le_of_lt (Nat.min_le_right _ _) (by decide))

/-- What is counted of a span is what is kept of it, and nothing else is. -/
theorem keptAs_iff {given kept : Duration} :
    given.KeptAs kept ↔ kept = .ofMillis (wholeMillis given).toNat := by
  have hsize : UInt64.size = 18446744073709551616 := rfl
  rw [toNat_wholeMillis]
  constructor
  · rintro ⟨⟨millis, hmillis, rfl⟩, hle, hnear, hcapped⟩
    simp only [Duration.ofMillis, Duration.mk.injEq, Duration.nanosPerMilli] at *
    omega
  · rintro rfl
    refine ⟨⟨_, ?_, rfl⟩, ?_, ?_, ?_⟩
    all_goals simp only [Duration.ofMillis, Duration.mk.injEq, Duration.nanosPerMilli]
    all_goals omega

/-- Nothing is counted of a span exactly if it is shorter than a millisecond. -/
theorem wholeMillis_eq_zero_iff {d : Duration} :
    wholeMillis d = 0 ↔ d.nanos < Duration.nanosPerMilli := by
  have hsize : UInt64.size = 18446744073709551616 := rfl
  rw [← UInt64.toNat_inj, toNat_wholeMillis, UInt64.toNat_zero, Duration.nanosPerMilli]
  omega

/-! ### Changes -/

/-- A change of a configuration. -/
inductive Change
  | maxEntries (bound : UInt64)
  | idleTimeout (d : Duration)
  | sweepInterval (d : Duration)
  deriving DecidableEq

/-- The configuration after a change. -/
def change (c : Config) : Change → Config
  | .maxEntries bound => c.withMaxEntries bound
  | .idleTimeout d => c.withIdleTimeout d
  | .sweepInterval d => c.withSweepInterval d

/-- The configuration that is reached from the default one by changes, one after the other. -/
def ofChanges (changes : List Change) : Config := changes.foldl change default

namespace Change

def maxEntries? : Change → Option UInt64
  | .maxEntries bound => some bound
  | _ => none

def idleTimeout? : Change → Option Duration
  | .idleTimeout d => some d
  | _ => none

def sweepInterval? : Change → Option Duration
  | .sweepInterval d => some d
  | _ => none

end Change

/-- The last value of a kind that changes give. -/
def lastGiven? {α : Type} (given? : Change → Option α) (changes : List Change) : Option α :=
  (changes.filterMap given?).getLast?

theorem ofChanges_append_singleton (changes : List Change) (last : Change) :
    ofChanges (changes ++ [last]) = (ofChanges changes).change last := by
  rw [ofChanges, List.foldl_append]
  rfl

theorem lastGiven?_append_singleton {α : Type} (given? : Change → Option α) (changes : List Change)
    (last : Change) :
    lastGiven? given? (changes ++ [last]) = (given? last).or (lastGiven? given? changes) := by
  rw [lastGiven?, List.filterMap_append, List.getLast?_append]
  cases hlast : given? last with
  | none => simp [hlast, lastGiven?]
  | some value => simp [hlast]

/-! ### What changes come to -/

variable {c : Config} {changes : List Change}

/-- Each field has what was given for it last, or its default. -/
structure Follows (changes : List Change) (c : Config) : Prop where
  maxEntries : c.maxEntries = (lastGiven? Change.maxEntries? changes).getD 64
  idleTimeout : c.idleTimeoutMs =
    ((lastGiven? Change.idleTimeout? changes).map wholeMillis).getD 60000
  sweepInterval : c.sweepIntervalMs = (lastGiven? Change.sweepInterval? changes).map wholeMillis

theorem Follows.change (h : Follows changes c) (last : Change) :
    Follows (changes ++ [last]) (c.change last) := by
  obtain ⟨hmax, hidle, hsweep⟩ := h
  constructor
  · rw [lastGiven?_append_singleton]
    cases last with
    | maxEntries bound => rfl
    | idleTimeout d => exact hmax
    | sweepInterval d => exact hmax
  · rw [lastGiven?_append_singleton]
    cases last with
    | maxEntries bound => exact hidle
    | idleTimeout d => rfl
    | sweepInterval d => exact hidle
  · rw [lastGiven?_append_singleton]
    cases last with
    | maxEntries bound => exact hsweep
    | idleTimeout d => exact hsweep
    | sweepInterval d => rfl

theorem follows_ofChanges (changes : List Change) : Follows changes (ofChanges changes) := by
  induction changes using List.reverseRecOn with
  | nil => exact ⟨rfl, rfl, rfl⟩
  | append_singleton changes last ih =>
      rw [ofChanges_append_singleton]
      exact ih.change last

/-- What limits how many places are set aside. -/
def limits (changes : List Change) : Set UInt64 :=
  {4} ∪ {bound | Change.maxEntries bound ∈ changes}

theorem mem_limits_append_singleton {last : Change} {n : UInt64} :
    n ∈ limits (changes ++ [last]) ↔ n ∈ limits changes ∨ .maxEntries n = last := by
  simp [limits, or_assoc]

theorem isLeast_change (h : IsLeast (limits changes) c.initialCapacity) (last : Change) :
    IsLeast (limits (changes ++ [last])) (c.change last).initialCapacity := by
  obtain ⟨hmem, hlower⟩ := h
  have hother (hkind : ∀ bound, .maxEntries bound ≠ last) :
      limits (changes ++ [last]) = limits changes := by
    ext n
    rw [mem_limits_append_singleton, or_iff_left (hkind n)]
  cases last with
  | maxEntries bound =>
      change IsLeast _ (min c.initialCapacity bound)
      refine ⟨?_, fun n hn => ?_⟩
      · rw [mem_limits_append_singleton]
        rcases Std.min_eq_or (a := c.initialCapacity) (b := bound) with hmin | hmin
        · rw [hmin]
          exact Or.inl hmem
        · rw [hmin]
          exact Or.inr rfl
      · rcases mem_limits_append_singleton.mp hn with hold | hnew
        · exact UInt64.le_trans Std.min_le_left (hlower hold)
        · cases hnew
          exact Std.min_le_right
  | idleTimeout d =>
      rw [hother fun bound hsame => by cases hsame]
      exact ⟨hmem, hlower⟩
  | sweepInterval d =>
      rw [hother fun bound hsame => by cases hsame]
      exact ⟨hmem, hlower⟩

/-- As many places are set aside as the least of all bounds allows. -/
theorem isLeast_ofChanges (changes : List Change) :
    IsLeast (limits changes) (ofChanges changes).initialCapacity := by
  induction changes using List.reverseRecOn with
  | nil =>
      refine ⟨Or.inl rfl, fun n hn => ?_⟩
      obtain rfl : n = 4 := by simpa [limits] using hn
      exact UInt64.le_refl 4
  | append_singleton changes last ih =>
      rw [ofChanges_append_singleton]
      exact isLeast_change ih last

theorem mem_of_lastGiven? {α : Type} {given? : Change → Option α} {value : α}
    (h : lastGiven? given? changes = some value) : ∃ change ∈ changes, given? change = some value :=
  List.mem_filterMap.mp (List.mem_of_getLast? h)

/-- The last bound is one of them. -/
theorem initialCapacity_le (changes : List Change) :
    (ofChanges changes).initialCapacity ≤ (ofChanges changes).maxEntries := by
  have hleast := isLeast_ofChanges changes
  rw [(follows_ofChanges changes).maxEntries]
  cases hlast : lastGiven? Change.maxEntries? changes with
  | none => exact UInt64.le_trans (hleast.2 (Or.inl rfl)) (by decide)
  | some bound =>
      obtain ⟨given, hgiven, hbound⟩ := mem_of_lastGiven? hlast
      cases given with
      | maxEntries other =>
          cases hbound
          exact hleast.2 (Or.inr hgiven)
      | idleTimeout d => cases hbound
      | sweepInterval d => cases hbound

/-! ### Validity -/

theorem maxEntries_bounds_eq_zero_iff : c.bounds.maxEntries = 0 ↔ c.maxEntries = 0 := by
  rw [← UInt64.toNat_inj]
  rfl

theorem idleTimeout_bounds_eq_zero_iff : c.bounds.idleTimeout.nanos = 0 ↔ c.idleTimeoutMs = 0 := by
  rw [← UInt64.toNat_inj]
  exact Nat.mul_eq_zero.trans (or_iff_left (by decide))

/-- Of the four things that can be wrong with a configuration the first one is reported. -/
theorem validate_eq (c : Config) :
    c.validate =
      if c.maxEntries = 0 then .error (.cache (.invalidBounds .noEntries))
      else if c.idleTimeoutMs = 0 then .error (.cache (.invalidBounds .noIdleTime))
      else if c.maxEntries < c.initialCapacity then
        .error (.cache (.invalidBounds
          (.initialExceeds c.initialCapacity.toNat c.maxEntries.toNat)))
      else if c.sweepIntervalMs = some 0 then .error .noSweepPeriod
      else .ok () := by
  have hplaces : c.bounds.maxEntries < c.bounds.initialCapacity ↔
      c.maxEntries < c.initialCapacity := UInt64.lt_iff_toNat_lt.symm
  unfold validate Bounds.validate
  simp only [maxEntries_bounds_eq_zero_iff, idleTimeout_bounds_eq_zero_iff, hplaces]
  by_cases hmax : c.maxEntries = 0
  · simp only [if_pos hmax]
  · by_cases hidle : c.idleTimeoutMs = 0
    · simp only [if_neg hmax, if_pos hidle]
    · by_cases hover : c.maxEntries < c.initialCapacity
      · simp only [if_neg hmax, if_neg hidle, if_pos hover]
        rfl
      · simp only [if_neg hmax, if_neg hidle, if_neg hover]

/-- A configuration is valid if nothing is wrong with it. -/
theorem validate_eq_ok_iff :
    c.validate = .ok () ↔ c.maxEntries ≠ 0 ∧ c.idleTimeoutMs ≠ 0 ∧
      ¬ c.maxEntries < c.initialCapacity ∧ c.sweepIntervalMs ≠ some 0 := by
  rw [validate_eq]
  by_cases hmax : c.maxEntries = 0
  · simp [hmax]
  · by_cases hidle : c.idleTimeoutMs = 0
    · simp [hmax, hidle]
    · by_cases hover : c.maxEntries < c.initialCapacity
      · simp [hmax, hidle, hover]
      · by_cases hsweep : c.sweepIntervalMs = some 0
        · simp [hmax, hidle, hover, hsweep]
        · simp [hmax, hidle, hover, hsweep]

/-- A configuration that is valid has a place, an idle time and, if it has one, a period. -/
theorem pos_of_validate (h : c.validate = .ok ()) :
    0 < c.bounds.maxEntries ∧ 0 < c.bounds.idleTimeout.nanos ∧
      ∀ period ∈ c.sweepPeriod, 0 < period.nanos := by
  obtain ⟨hmax, hidle, -, hsweep⟩ := validate_eq_ok_iff.mp h
  refine ⟨Nat.pos_of_ne_zero (mt maxEntries_bounds_eq_zero_iff.mp hmax),
    Nat.pos_of_ne_zero (mt idleTimeout_bounds_eq_zero_iff.mp hidle), ?_⟩
  rintro period hperiod
  obtain ⟨millis, hmillis, rfl⟩ := Option.map_eq_some_iff.mp hperiod
  refine Nat.mul_pos (Nat.pos_of_ne_zero fun hzero => hsweep ?_) (by decide)
  have hnone : millis = 0 := UInt64.toNat_inj.mp hzero
  rw [hmillis, hnone]

/-- The last span of a kind that changes give is too short for whole milliseconds. -/
def LastTooShort (given? : Change → Option Duration) (changes : List Change) : Prop :=
  ∃ d, lastGiven? given? changes = some d ∧ d.nanos < Duration.nanosPerMilli

theorem lastTooShort_iff {given? : Change → Option Duration} {d : Duration}
    (h : lastGiven? given? changes = some d) :
    LastTooShort given? changes ↔ d.nanos < Duration.nanosPerMilli := by
  simp [LastTooShort, h]

theorem maxEntries_ofChanges_eq_zero_iff :
    (ofChanges changes).maxEntries = 0 ↔ lastGiven? Change.maxEntries? changes = some 0 := by
  rw [(follows_ofChanges changes).maxEntries]
  cases lastGiven? Change.maxEntries? changes with
  | none => simp
  | some bound => simp

theorem idleTimeoutMs_ofChanges_eq_zero_iff :
    (ofChanges changes).idleTimeoutMs = 0 ↔ LastTooShort Change.idleTimeout? changes := by
  rw [(follows_ofChanges changes).idleTimeout, LastTooShort]
  cases lastGiven? Change.idleTimeout? changes with
  | none => simp
  | some d => simp [wholeMillis_eq_zero_iff]

theorem sweepIntervalMs_ofChanges_eq_zero_iff :
    (ofChanges changes).sweepIntervalMs = some 0 ↔ LastTooShort Change.sweepInterval? changes := by
  rw [(follows_ofChanges changes).sweepInterval, LastTooShort]
  cases lastGiven? Change.sweepInterval? changes with
  | none => simp
  | some d => simp [wholeMillis_eq_zero_iff]

/-- A zero bound is reported before all else. -/
theorem validate_ofChanges_of_zero (hmax : lastGiven? Change.maxEntries? changes = some 0) :
    (ofChanges changes).validate = .error (.cache (.invalidBounds .noEntries)) := by
  rw [validate_eq, if_pos (maxEntries_ofChanges_eq_zero_iff.mpr hmax)]

/-- An idle time that is too short is reported next. -/
theorem validate_ofChanges_of_idle (hmax : lastGiven? Change.maxEntries? changes ≠ some 0)
    (hidle : LastTooShort Change.idleTimeout? changes) :
    (ofChanges changes).validate = .error (.cache (.invalidBounds .noIdleTime)) := by
  rw [validate_eq, if_neg (mt maxEntries_ofChanges_eq_zero_iff.mp hmax),
    if_pos (idleTimeoutMs_ofChanges_eq_zero_iff.mpr hidle)]

/-- Only then is the sweep interval looked at, since changes never set aside more places than there
are. -/
theorem validate_ofChanges_of_idles (hmax : lastGiven? Change.maxEntries? changes ≠ some 0)
    (hidle : ¬ LastTooShort Change.idleTimeout? changes) :
    (ofChanges changes).validate =
      if (ofChanges changes).sweepIntervalMs = some 0 then .error .noSweepPeriod else .ok () := by
  rw [validate_eq, if_neg (mt maxEntries_ofChanges_eq_zero_iff.mp hmax),
    if_neg (mt idleTimeoutMs_ofChanges_eq_zero_iff.mp hidle),
    if_neg (UInt64.not_lt.mpr (initialCapacity_le changes))]

theorem validate_ofChanges_eq_ok_iff :
    (ofChanges changes).validate = .ok () ↔
      lastGiven? Change.maxEntries? changes ≠ some 0 ∧
        ¬ LastTooShort Change.idleTimeout? changes ∧
        ¬ LastTooShort Change.sweepInterval? changes := by
  rw [validate_eq_ok_iff, ← sweepIntervalMs_ofChanges_eq_zero_iff,
    ← idleTimeoutMs_ofChanges_eq_zero_iff, ne_eq, ne_eq, ne_eq, maxEntries_ofChanges_eq_zero_iff,
    and_iff_right (UInt64.not_lt.mpr (initialCapacity_le changes))]

end Config

/-- The sweeper that a verifier is set up with has the period of the configuration. -/
theorem Verifier.setUp_sweeper {σ : Type} {config : Config} {hasher : Hasher σ} {hashing : σ}
    {keySecret : Bytes} {runtime : Bool} {v : Verifier σ}
    (h : setUp config hasher hashing keySecret runtime = .ok v) :
    v.sweeper = config.sweepPeriod.map (.start 0) := by
  unfold setUp at h
  split at h
  · cases h
  · split at h
    · cases h
    · cases h
      rfl

/-- A verifier that could be set up has a place and an idle time for what it remembers, also on the
counter that it reads, and if it has a sweeper, a period for it. -/
theorem Verifier.setUp_pos {σ : Type} {config : Config} {hasher : Hasher σ} {hashing : σ}
    {keySecret : Bytes} {runtime : Bool} {v : Verifier σ}
    (h : setUp config hasher hashing keySecret runtime = .ok v) :
    0 < v.cache.bounds.maxEntries ∧ 0 < v.cache.bounds.idleReading ∧
      ∀ s ∈ v.sweeper, 0 < s.period.nanos := by
  obtain ⟨hvalid, -, -, -, -, hcache⟩ := setUp_eq_ok h
  obtain ⟨hmax, hidle, hperiod⟩ := Config.pos_of_validate hvalid
  rw [hcache, setUp_sweeper h]
  refine ⟨hmax, Nat.lt_min.mpr ⟨hidle, by decide⟩, fun s hs => ?_⟩
  obtain ⟨period, hsome, rfl⟩ := Option.map_eq_some_iff.mp hs
  exact hperiod period hsome

namespace Config

/-- **What changes of the default configuration come to**, in any order and number. As many places
are set aside as the least of four and all bounds allows, and never more than the last bound, which
is the one that is kept. Of the idle times and of the sweep intervals the last one is kept, in whole
milliseconds. The configuration is valid exactly if the last bound is not zero and neither of the
last two spans is shorter than a millisecond; of what is wrong the bound is reported first, then the
idle time, then the sweep interval. So no verifier that can be set up has a cache without a place or
an idle time, or a sweeper without a period. -/
theorem changes_effect (changes : List Change) :
    (IsLeast (limits changes) (ofChanges changes).initialCapacity ∧
      (ofChanges changes).initialCapacity ≤ (ofChanges changes).maxEntries ∧
      (ofChanges changes).maxEntries = (lastGiven? Change.maxEntries? changes).getD 64) ∧
    ((∀ d, lastGiven? Change.idleTimeout? changes = some d →
        d.KeptAs (ofChanges changes).bounds.idleTimeout) ∧
      (lastGiven? Change.idleTimeout? changes = none →
        (ofChanges changes).bounds.idleTimeout = .ofSeconds 60)) ∧
    ((∀ d, lastGiven? Change.sweepInterval? changes = some d →
        ∃ period, (ofChanges changes).sweepPeriod = some period ∧ d.KeptAs period) ∧
      (lastGiven? Change.sweepInterval? changes = none → (ofChanges changes).sweepPeriod = none)) ∧
    (((ofChanges changes).validate = .ok () ↔
        lastGiven? Change.maxEntries? changes ≠ some 0 ∧
        ¬ LastTooShort Change.idleTimeout? changes ∧
        ¬ LastTooShort Change.sweepInterval? changes) ∧
      (lastGiven? Change.maxEntries? changes = some 0 →
        (ofChanges changes).validate = .error (.cache (.invalidBounds .noEntries))) ∧
      (lastGiven? Change.maxEntries? changes ≠ some 0 → LastTooShort Change.idleTimeout? changes →
        (ofChanges changes).validate = .error (.cache (.invalidBounds .noIdleTime))) ∧
      (lastGiven? Change.maxEntries? changes ≠ some 0 → ¬ LastTooShort Change.idleTimeout? changes →
        LastTooShort Change.sweepInterval? changes →
        (ofChanges changes).validate = .error .noSweepPeriod)) ∧
    (∀ config : Config, config.validate = .ok () →
      0 < config.bounds.maxEntries ∧ 0 < config.bounds.idleTimeout.nanos ∧
        ∀ period ∈ config.sweepPeriod, 0 < period.nanos) ∧
    ∀ {σ : Type} {config : Config} {hasher : Hasher σ} {hashing : σ} {keySecret : Bytes}
      {runtime : Bool} {v : Verifier σ},
      Verifier.setUp config hasher hashing keySecret runtime = .ok v →
      0 < v.cache.bounds.maxEntries ∧ 0 < v.cache.bounds.idleReading ∧
        ∀ s ∈ v.sweeper, 0 < s.period.nanos := by
  have hfollows := follows_ofChanges changes
  have hidle : (ofChanges changes).bounds.idleTimeout =
      .ofMillis (ofChanges changes).idleTimeoutMs.toNat := rfl
  refine ⟨⟨isLeast_ofChanges changes, initialCapacity_le changes, hfollows.maxEntries⟩, ?_, ?_, ?_,
    fun config => pos_of_validate, Verifier.setUp_pos⟩
  · rw [hidle, hfollows.idleTimeout]
    constructor
    · intro d hlast
      rw [hlast]
      exact keptAs_iff.mpr rfl
    · intro hnone
      rw [hnone]
      rfl
  · rw [sweepPeriod, hfollows.sweepInterval]
    constructor
    · intro d hlast
      rw [hlast]
      exact ⟨_, rfl, keptAs_iff.mpr rfl⟩
    · intro hnone
      rw [hnone]
      rfl
  · refine ⟨validate_ofChanges_eq_ok_iff, validate_ofChanges_of_zero, validate_ofChanges_of_idle,
      fun hmax hidle hsweep => ?_⟩
    rw [validate_ofChanges_of_idles hmax hidle,
      if_pos (sweepIntervalMs_ofChanges_eq_zero_iff.mpr hsweep)]

/-- Bounds that go down and up again, an idle time of almost two milliseconds, and an interval that
is too long to be counted. -/
def lateChanges : List Change :=
  [.maxEntries 9, .idleTimeout ⟨0⟩, .sweepInterval (.ofSeconds UInt64.size), .maxEntries 2,
    .idleTimeout ⟨1999999⟩, .maxEntries 7]

/-- Two spans of less than a millisecond. -/
def hastyChanges : List Change := [.sweepInterval ⟨999999⟩, .idleTimeout ⟨999999⟩]

/-- The least bound and the last one are kept, the idle time loses almost a millisecond, and the
interval is cut. Of two spans that are too short the idle time is reported. -/
theorem effect_of_lateChanges :
    IsLeast (limits lateChanges) 2 ∧ (ofChanges lateChanges).maxEntries = 7 ∧
      (Duration.mk 1999999).KeptAs (.ofMillis 1) ∧
      (Duration.ofSeconds UInt64.size).KeptAs (.ofMillis (UInt64.size - 1)) ∧
      (ofChanges lateChanges).validate = .ok () ∧
      (∃ v, Verifier.setUp (ofChanges lateChanges) (Policy.default.hasher ⟨fun state => (0, state)⟩)
          () [7] true = .ok v ∧ ∀ s ∈ v.sweeper, 0 < s.period.nanos) ∧
      LastTooShort Change.idleTimeout? hastyChanges ∧
      LastTooShort Change.sweepInterval? hastyChanges ∧
      (ofChanges hastyChanges).validate = .error (.cache (.invalidBounds .noIdleTime)) := by
  have hshort : LastTooShort Change.idleTimeout? hastyChanges :=
    (lastTooShort_iff rfl).mpr (by decide)
  have hbrief : LastTooShort Change.sweepInterval? hastyChanges :=
    (lastTooShort_iff rfl).mpr (by decide)
  obtain ⟨⟨hleast, -, hmax⟩, ⟨hidle, -⟩, ⟨hsweep, -⟩, ⟨hvalid, -⟩, -, hset⟩ :=
    changes_effect lateChanges
  obtain ⟨-, -, -, ⟨-, -, hfault, -⟩, -⟩ := changes_effect hastyChanges
  obtain ⟨period, hperiod, hkept⟩ := hsweep _ rfl
  cases hperiod
  have hok : (ofChanges lateChanges).validate = .ok () := by
    refine hvalid.mpr ⟨by decide, ?_, ?_⟩
    · rw [lastTooShort_iff rfl]
      decide
    · rw [lastTooShort_iff rfl]
      decide
  obtain ⟨v, hv⟩ : ∃ v, Verifier.setUp (ofChanges lateChanges)
      (Policy.default.hasher ⟨fun state => (0, state)⟩) () [7] true = .ok v := ⟨_, rfl⟩
  exact ⟨hleast, hmax, hidle _ rfl, hkept, hok, ⟨v, hv, (hset hv).2.2⟩, hshort, hbrief,
    hfault (by decide) hshort⟩

end Config

end AccessControl
