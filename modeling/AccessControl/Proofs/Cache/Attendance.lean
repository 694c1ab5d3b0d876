import AccessControl.Proofs.Cache.Retention
import AccessControl.Proofs.Cache.Sweeps

/-!
A cache with a sweeper, as time passes.

As long as the cache is there and its sweeper at work (`Tended`), all that happens to it are the
operations of its clients and a sweep at each tick. `trace` writes them down: the cache is what the
trace makes of it (`Tended.after`), and the trace has every sweep that is due (`Tended.attends`), so
the bound on idle entries holds (`Sweeper.Attends.idle_lt`). Once the sweeper has been stopped, or
the cache is gone, nothing is swept again and the passing of time leaves the cache as it is
(`AtRest.unswept`); without a cache the sweeper ends at its next tick
(`Tended.not_running_of_dropCache`).

Main statement: `idle_entries_swept`.
-/

namespace AccessControl.Attended

variable {κ ν : Type}

/-! ### What may happen -/

/-- What may happen to a cache that has a sweeper. -/
inductive Move (κ ν : Type)
  | wait (d : Duration)
  | act (op : Cache.Op κ ν)
  | stopSweeper
  | dropSweeper
  | dropCache

/-- Whether the cache stays there and the sweeper at work. -/
def Move.keeps : Move κ ν → Bool
  | .wait _ | .act _ => true
  | _ => false

/-- The times at which the sweeper sweeps while time passes. -/
def sweeps (a : Attended κ ν) (d : Duration) : List Nat :=
  match a.cache, a.sweeper with
  | some _, some s => if s.running then s.ticks a.now (a.now + d.nanos) else []
  | _, _ => []

variable [DecidableEq κ]

def move (a : Attended κ ν) : Move κ ν → Attended κ ν
  | .wait d => a.wait d
  | .act op => (a.act op).2
  | .stopSweeper => a.stopSweeper
  | .dropSweeper => a.dropSweeper
  | .dropCache => a.dropCache

/-- One thing after the other. -/
def after (a : Attended κ ν) (moves : List (Move κ ν)) : Attended κ ν := moves.foldl move a

/-- The operations on the cache, with their times: what clients ask for, and the sweeps. -/
def deeds (a : Attended κ ν) : Move κ ν → List (Nat × Cache.Op κ ν)
  | .wait d => (a.sweeps d).map fun tick => (tick, .sweep)
  | .act op => [(a.now, op)]
  | _ => []

def trace (a : Attended κ ν) : List (Move κ ν) → List (Nat × Cache.Op κ ν)
  | [] => []
  | m :: rest => a.deeds m ++ (a.move m).trace rest

variable {a : Attended κ ν} {c : Cache κ ν} {s : Sweeper} {m : Move κ ν} {moves : List (Move κ ν)}
  {d : Duration} {tick : Nat}

/-! ### One thing that happens -/

@[simp] theorem now_wait (a : Attended κ ν) (d : Duration) : (a.wait d).now = a.now + d.nanos := by
  unfold wait
  split <;> rfl

@[simp] theorem now_act (a : Attended κ ν) (op : Cache.Op κ ν) : (a.act op).2.now = a.now := by
  unfold act
  split <;> rfl

@[simp] theorem sweeper_act (a : Attended κ ν) (op : Cache.Op κ ν) :
    (a.act op).2.sweeper = a.sweeper := by
  unfold act
  split <;> rfl

theorem cache_act (a : Attended κ ν) (op : Cache.Op κ ν) :
    (a.act op).2.cache = a.cache.map fun c => (c.step a.now op).2 := by
  unfold act
  split
  · rename_i hgone
    rw [hgone]
    rfl
  · rename_i c hcache
    rw [hcache]
    rfl

/-- While time passes, the cache is swept at the times of the sweeps, and nothing else happens
to it. -/
theorem cache_wait (a : Attended κ ν) (d : Duration) :
    (a.wait d).cache = a.cache.map (Sweeper.sweepAt (a.sweeps d)) := by
  obtain ⟨now, cache, sweeper⟩ := a
  cases cache with
  | none => cases sweeper <;> rfl
  | some c =>
      cases sweeper with
      | none => rfl
      | some s => cases hrunning : s.running <;> simp [wait, sweeps, Sweeper.advance, hrunning,
          Sweeper.sweepAt]

/-- Where no sweep falls into the time that passes, the cache is as before. -/
theorem cache_wait_of_no_sweeps (h : a.sweeps d = []) : (a.wait d).cache = a.cache := by
  rw [cache_wait, h]
  exact Option.map_id_apply

theorem sweeper_wait (a : Attended κ ν) (d : Duration) :
    (a.wait d).sweeper =
      a.sweeper.map fun s => (s.advance a.now (a.now + d.nanos) a.cache).1 := by
  unfold wait
  split
  · rename_i hnone
    rw [hnone]
    rfl
  · rename_i s hsweeper
    rw [hsweeper]
    rfl

/-- A cache that is gone does not come back. -/
theorem cache_move_of_none (h : a.cache = none) (m : Move κ ν) : (a.move m).cache = none := by
  cases m with
  | wait d => exact (cache_wait a d).trans (by rw [h, Option.map_none])
  | act op => exact (cache_act a op).trans (by rw [h, Option.map_none])
  | stopSweeper => exact h
  | dropSweeper => exact h
  | dropCache => rfl

/-- A sweeper that runs was there before: none is started, and one that was stopped stays so. -/
theorem sweeper_of_running (hsweeper : (a.move m).sweeper = some s) (hrunning : s.running = true) :
    a.sweeper = some s := by
  cases m with
  | wait d =>
      change (a.wait d).sweeper = some s at hsweeper
      rw [sweeper_wait] at hsweeper
      obtain ⟨old, hold, hadvance⟩ := Option.map_eq_some_iff.mp hsweeper
      rw [hold]
      cases hcache : a.cache with
      | some c =>
          rw [hcache] at hadvance
          exact congrArg some hadvance
      | none =>
          simp only [hcache, Sweeper.advance] at hadvance
          split at hadvance
          · exact congrArg some hadvance
          · subst hadvance
            cases hrunning
  | act op => exact (sweeper_act a op).symm.trans hsweeper
  | stopSweeper =>
      obtain ⟨old, -, rfl⟩ := Option.map_eq_some_iff.mp hsweeper
      cases hrunning
  | dropSweeper => cases hsweeper
  | dropCache => exact hsweeper

/-- No time is taken back. -/
theorem now_le_move (a : Attended κ ν) (m : Move κ ν) : a.now ≤ (a.move m).now := by
  cases m with
  | wait d => exact (now_wait a d).symm ▸ Nat.le_add_right _ _
  | act op => exact Nat.le_of_eq (now_act a op).symm
  | _ => exact Nat.le_refl _

/-! ### A sweeper at work -/

/-- The cache is there, and the sweeper is running. -/
structure Tended (a : Attended κ ν) (c : Cache κ ν) (s : Sweeper) : Prop where
  cache : a.cache = some c
  sweeper : a.sweeper = some s
  running : s.running = true

omit [DecidableEq κ] in
theorem Tended.sweeps_eq (h : a.Tended c s) (d : Duration) :
    a.sweeps d = s.ticks a.now (a.now + d.nanos) := by
  simp only [sweeps, h.cache, h.sweeper, h.running, if_true]

/-- What keeps the cache and the sweeper does to the cache what its deeds do. -/
theorem Tended.move (h : a.Tended c s) (hkeeps : m.keeps = true) :
    (a.move m).Tended (c.run (a.deeds m)).2 s := by
  cases m with
  | wait d =>
      refine ⟨?_, ?_, h.running⟩
      · change (a.wait d).cache = _
        rw [cache_wait, h.cache, Option.map_some, Cache.sweepAt_eq_run]
        rfl
      · simp only [Attended.move, wait, h.sweeper, h.cache, Sweeper.advance]
  | act op =>
      refine ⟨?_, (sweeper_act a op).trans h.sweeper, h.running⟩
      change (a.act op).2.cache = _
      rw [cache_act, h.cache]
      rfl
  | _ => cases hkeeps

/-- The cache is what its trace makes of it. -/
theorem Tended.after (h : a.Tended c s) (hkeeps : ∀ m ∈ moves, m.keeps = true) :
    (a.after moves).Tended (c.run (a.trace moves)).2 s := by
  induction moves generalizing a c with
  | nil => exact h
  | cons m rest ih =>
      have hmove := h.move (hkeeps m List.mem_cons_self)
      rw [trace, Cache.run_append]
      exact ih hmove fun other hother => hkeeps other (List.mem_cons_of_mem m hother)

/-- What is done falls between the times before and after. -/
theorem Tended.deeds_between (h : a.Tended c s) (hperiod : 0 < s.period.nanos) :
    ∀ op ∈ a.deeds m, a.now ≤ op.1 ∧ op.1 ≤ (a.move m).now := by
  intro op hop
  cases m with
  | wait d =>
      obtain ⟨tick, htick, rfl⟩ := List.mem_map.mp hop
      rw [h.sweeps_eq] at htick
      obtain ⟨⟨hafter, hupTo⟩, -⟩ := (Sweeper.mem_ticks hperiod).mp htick
      exact ⟨Nat.le_of_lt hafter, (now_wait a d).symm ▸ hupTo⟩
  | act op' =>
      rw [List.mem_singleton.mp hop]
      exact ⟨Nat.le_refl _, now_le_move a (.act op')⟩
  | _ => cases hop

omit [DecidableEq κ] in
theorem Tended.deeds_ordered (h : a.Tended c s) (hperiod : 0 < s.period.nanos) :
    (a.deeds m).Pairwise fun earlier later => earlier.1 ≤ later.1 := by
  cases m with
  | wait d =>
      refine List.pairwise_map.mpr ?_
      rw [h.sweeps_eq]
      exact (Sweeper.ticks_increasing hperiod).imp Nat.le_of_lt
  | act op => exact List.pairwise_singleton _ _
  | _ => exact List.Pairwise.nil

theorem Tended.le_of_mem_trace (h : a.Tended c s) (hperiod : 0 < s.period.nanos)
    (hkeeps : ∀ m ∈ moves, m.keeps = true) : ∀ op ∈ a.trace moves, a.now ≤ op.1 := by
  induction moves generalizing a c with
  | nil => exact fun op hop => absurd hop List.not_mem_nil
  | cons m rest ih =>
      intro op hop
      rcases List.mem_append.mp hop with hop | hop
      · exact (h.deeds_between hperiod op hop).1
      · have hrest := ih (h.move (hkeeps m List.mem_cons_self))
          (fun other hother => hkeeps other (List.mem_cons_of_mem m hother)) op hop
        exact Nat.le_trans (now_le_move a m) hrest

/-- The sweeps that are due in the time of a move are among its deeds. -/
theorem Tended.mem_deeds (h : a.Tended c s) (hperiod : 0 < s.period.nanos)
    (hkeeps : m.keeps = true) (htick : tick ∈ s.ticks a.now (a.move m).now) :
    (tick, .sweep) ∈ a.deeds m := by
  cases m with
  | wait d =>
      refine List.mem_map.mpr ⟨tick, ?_, rfl⟩
      rw [h.sweeps_eq, ← now_wait]
      exact htick
  | act op =>
      obtain ⟨⟨hafter, hupTo⟩, -⟩ := (Sweeper.mem_ticks hperiod).mp htick
      change tick ≤ (a.act op).2.now at hupTo
      rw [now_act] at hupTo
      omega
  | _ => cases hkeeps

/-- The trace is in the order of time and has every sweep that is due. -/
theorem Tended.attends (h : a.Tended c s) (hperiod : 0 < s.period.nanos)
    (hkeeps : ∀ m ∈ moves, m.keeps = true) :
    s.Attends a.now (a.trace moves) (a.after moves).now := by
  induction moves generalizing a c with
  | nil =>
      refine ⟨List.Pairwise.nil, fun tick htick => ?_⟩
      rw [show (a.after []).now = a.now from rfl, Sweeper.ticks_self hperiod] at htick
      cases htick
  | cons m rest ih =>
      have hkeepsM : m.keeps = true := hkeeps m List.mem_cons_self
      have hkeepsRest : ∀ other ∈ rest, other.keeps = true :=
        fun other hother => hkeeps other (List.mem_cons_of_mem m hother)
      have hmove := h.move hkeepsM
      obtain ⟨hordered, hdue⟩ := ih hmove hkeepsRest
      constructor
      · refine List.pairwise_append.mpr ⟨h.deeds_ordered hperiod, hordered, ?_⟩
        intro op hop later hlater
        exact Nat.le_trans (h.deeds_between hperiod op hop).2
          (hmove.le_of_mem_trace hperiod hkeepsRest later hlater)
      · intro tick htick
        obtain ⟨⟨hafter, hupTo⟩, hcount⟩ := (Sweeper.mem_ticks hperiod).mp htick
        rcases Nat.lt_or_ge (a.move m).now tick with hlater | hsoon
        · exact List.mem_append_right _
            (hdue tick ((Sweeper.mem_ticks hperiod).mpr ⟨⟨hlater, hupTo⟩, hcount⟩))
        · exact List.mem_append_left _ (h.mem_deeds hperiod hkeepsM
            ((Sweeper.mem_ticks hperiod).mpr ⟨⟨hafter, hsoon⟩, hcount⟩))

/-- Right after a sweep there are as many entries as keys that are found. -/
theorem Tended.size_of_sweep (h : a.Tended c s) (hperiod : 0 < s.period.nanos)
    (hsweep : a.now + d.nanos ∈ a.sweeps d) :
    ∃ left, (a.wait d).cache = some left ∧ ∃ keys : Finset κ,
      (∀ key, key ∈ keys ↔ left.contains (a.wait d).now key = true) ∧ left.size = keys.card := by
  rw [h.sweeps_eq] at hsweep
  obtain ⟨front, hfront⟩ := Sweeper.ticks_eq_concat hperiod hsweep
  refine ⟨((Sweeper.sweepAt front c).sweep (a.now + d.nanos)).2, ?_, ?_⟩
  · rw [cache_wait, h.cache, h.sweeps_eq, hfront, Option.map_some, Sweeper.sweepAt,
      List.foldl_concat]
    rfl
  · rw [now_wait]
    exact Cache.size_eq_card_contains _ _

/-! ### No sweeper at work -/

/-- There is no cache, or no sweeper that is running. -/
def AtRest (a : Attended κ ν) : Prop :=
  a.cache = none ∨ ∀ s, a.sweeper = some s → s.running = false

omit [DecidableEq κ] in
theorem AtRest.sweeps_eq_nil (h : a.AtRest) (d : Duration) : a.sweeps d = [] := by
  unfold sweeps
  split
  · rename_i c s hcache hsweeper
    rcases h with hgone | hstopped
    · rw [hgone] at hcache
      cases hcache
    · rw [hstopped s hsweeper]
      rfl
  · rfl

/-- Whatever happens, a sweeper that is not at work does not begin again. -/
theorem AtRest.move (h : a.AtRest) (m : Move κ ν) : (a.move m).AtRest := by
  rcases h with hgone | hstopped
  · exact Or.inl (cache_move_of_none hgone m)
  · right
    intro s hsweeper
    by_contra hrunning
    rw [Bool.not_eq_false] at hrunning
    rw [hstopped s (sweeper_of_running hsweeper hrunning)] at hrunning
    cases hrunning

theorem AtRest.after (h : a.AtRest) (moves : List (Move κ ν)) : (a.after moves).AtRest := by
  induction moves generalizing a with
  | nil => exact h
  | cons m rest ih => exact ih (h.move m)

/-- No sweep ever runs again: whatever happens first, the cache is as it was after any further
time. -/
def Unswept (a : Attended κ ν) : Prop :=
  ∀ moves d, (a.after moves).sweeps d = [] ∧ ((a.after moves).wait d).cache = (a.after moves).cache

theorem AtRest.unswept (h : a.AtRest) : a.Unswept := by
  intro moves d
  have hnone := (h.after moves).sweeps_eq_nil d
  exact ⟨hnone, cache_wait_of_no_sweeps hnone⟩

/-- The cache is gone, and as long as the sweeper runs there has been no tick since a time. -/
structure Forsaken (a : Attended κ ν) (s : Sweeper) (since : Nat) : Prop where
  gone : a.cache = none
  waiting : ∀ left, a.sweeper = some left → left.running = true →
    left = s ∧ s.ticks since a.now = []

/-- Without a cache, a sweeper that runs after a time has seen no tick in it. -/
theorem ticks_of_running (hgone : a.cache = none) (hsweeper : (a.move m).sweeper = some s)
    (hrunning : s.running = true) (hperiod : 0 < s.period.nanos) :
    s.ticks a.now (a.move m).now = [] := by
  cases m with
  | wait d =>
      have hold := sweeper_of_running hsweeper hrunning
      change (a.wait d).sweeper = some s at hsweeper
      rw [sweeper_wait, hold, hgone, Option.map_some, Option.some.injEq,
        Sweeper.advance] at hsweeper
      change s.ticks a.now (a.wait d).now = []
      rw [now_wait]
      by_contra hticks
      rw [if_neg (by rwa [List.isEmpty_iff])] at hsweeper
      rw [← hsweeper] at hrunning
      cases hrunning
  | act op =>
      change s.ticks a.now (a.act op).2.now = []
      rw [now_act]
      exact Sweeper.ticks_self hperiod
  | stopSweeper | dropSweeper | dropCache => exact Sweeper.ticks_self hperiod

theorem Forsaken.move {since : Nat} (h : a.Forsaken s since) (hperiod : 0 < s.period.nanos)
    (m : Move κ ν) : (a.move m).Forsaken s since := by
  refine ⟨cache_move_of_none h.gone m, fun left hleft hrunning => ?_⟩
  obtain ⟨rfl, hbefore⟩ := h.waiting left (sweeper_of_running hleft hrunning) hrunning
  have hnext := ticks_of_running h.gone hleft hrunning hperiod
  exact ⟨rfl, Sweeper.ticks_eq_nil_of_split hperiod hbefore hnext⟩

theorem Forsaken.after {since : Nat} (h : a.Forsaken s since) (hperiod : 0 < s.period.nanos)
    (moves : List (Move κ ν)) : (a.after moves).Forsaken s since := by
  induction moves generalizing a with
  | nil => exact h
  | cons m rest ih => exact ih (h.move hperiod m)

/-- A sweeper whose cache is gone has ended once there has been a tick. -/
theorem Tended.not_running_of_dropCache (h : a.Tended c s) (hperiod : 0 < s.period.nanos)
    (moves : List (Move κ ν)) (htick : tick ∈ s.ticks a.now (a.dropCache.after moves).now) :
    (a.dropCache.after moves).sweeperRunning ≠ some true := by
  intro hrunning
  have hstart : a.dropCache.Forsaken s a.now := by
    refine ⟨rfl, fun left hleft _ => ⟨Option.some.inj (hleft.symm.trans h.sweeper), ?_⟩⟩
    exact Sweeper.ticks_self hperiod
  obtain ⟨left, hleft, hrunning⟩ := Option.map_eq_some_iff.mp hrunning
  have hnone := ((hstart.after hperiod moves).waiting left hleft hrunning).2
  exact List.eq_nil_iff_forall_not_mem.mp hnone tick htick

/-! ### From the start -/

omit [DecidableEq κ] in
/-- A cache for which a sweeper is started is tended from then on. -/
theorem tended_start (hcache : a.cache = some c) {period : Duration} (hperiod : 0 < period.nanos) :
    ({ a with sweeper := some (.start a.now period) } : Attended κ ν).Tended c
      (.start a.now period) :=
  ⟨hcache, rfl, bne_iff_ne.mpr (Nat.ne_of_gt hperiod)⟩

/-- **An idle entry is swept in time.** Whatever is done to a cache in the order of time, with a
sweep at each tick, before or after what else is done at that instant: no entry touched since the
start of the sweeper is ever idle for the idle time and a period more, as long as the clock has not
reached its end.

A sweeper started for a cache makes these sweeps as long as it is not stopped and the cache is
there: at the start and each positive number of periods, and not at the start itself, so that
nothing is swept before a period has passed. Right after a sweep there are as many entries as keys
that are found. Once the sweeper has been stopped or given up, or the cache is gone, no sweep ever
runs, and time leaves the cache as it is; and without a cache the sweeper has ended after the next
tick. -/
theorem idle_entries_swept {period : Duration} (hperiod : 0 < period.nanos) :
    (∀ (s : Sweeper) (c : Cache κ ν) (ops : List (Nat × Cache.Op κ ν)) (now : Nat),
      s.period = period → s.Attends s.started ops now → now < Clock.limit →
      ∀ e ∈ (c.run ops).2.entries, s.started ≤ e.touched →
        now - e.touched < c.bounds.idleTimeout.nanos + period.nanos) ∧
    ∀ (a : Attended κ ν) (c : Cache κ ν), a.cache = some c →
      ∃ b, a.startSweeper true period = .ok b ∧
      (∀ d : Duration, d.nanos < period.nanos → (b.wait d).cache = a.cache) ∧
      ∀ moves : List (Move κ ν), (∀ m ∈ moves, m.keeps = true) →
        ((b.after moves).sweeperRunning = some true ∧
          ∃ left, (b.after moves).cache = some left ∧ ((b.after moves).now < Clock.limit →
            ∀ e ∈ left.entries, a.now ≤ e.touched →
              (b.after moves).now - e.touched < c.bounds.idleTimeout.nanos + period.nanos)) ∧
        (∀ d tick, tick ∈ (b.after moves).sweeps d ↔
          ((b.after moves).now < tick ∧ tick ≤ (b.after moves).now + d.nanos) ∧
            ∃ count, 0 < count ∧ tick = a.now + count * period.nanos) ∧
        (∀ d, (b.after moves).now + d.nanos ∈ (b.after moves).sweeps d →
          ∃ left, ((b.after moves).wait d).cache = some left ∧ ∃ keys : Finset κ,
            (∀ key, key ∈ keys ↔ left.contains ((b.after moves).wait d).now key = true) ∧
            left.size = keys.card) ∧
        ((b.after moves).stopSweeper.Unswept ∧ (b.after moves).dropSweeper.Unswept ∧
          (b.after moves).dropCache.Unswept) ∧
        ∀ later : List (Move κ ν),
          (∃ count, 0 < count ∧ (b.after moves).now < a.now + count * period.nanos ∧
            a.now + count * period.nanos ≤ ((b.after moves).dropCache.after later).now) →
          ((b.after moves).dropCache.after later).sweeperRunning ≠ some true := by
  constructor
  · rintro s c ops now rfl hattends hnow e he hsince
    exact hattends.idle_lt hperiod hnow he hsince
  · intro a c hcache
    have hstart := tended_start hcache hperiod
    refine ⟨_, rfl, ?_, ?_⟩
    · intro d hd
      refine cache_wait_of_no_sweeps ?_
      rw [hstart.sweeps_eq]
      exact Sweeper.ticks_eq_nil_of_lt hperiod (Nat.add_lt_add_left hd _)
    · intro moves hkeeps
      have htended := hstart.after hkeeps
      refine ⟨⟨?_, _, htended.cache, ?_⟩, ?_, ?_, ⟨?_, ?_, ?_⟩, ?_⟩
      · rw [sweeperRunning, htended.sweeper, Option.map_some, htended.running]
      · intro hnow e he hsince
        exact (hstart.attends hperiod hkeeps).idle_lt hperiod hnow he hsince
      · intro d tick
        rw [htended.sweeps_eq]
        exact Sweeper.mem_ticks hperiod
      · intro d hsweep
        exact htended.size_of_sweep hperiod hsweep
      · refine AtRest.unswept (Or.inr fun s hs => ?_)
        obtain ⟨old, -, rfl⟩ := Option.map_eq_some_iff.mp hs
        rfl
      · exact AtRest.unswept (Or.inr fun s hs => (by cases hs))
      · exact AtRest.unswept (Or.inl rfl)
      · rintro later ⟨count, hcount, hafter, hupTo⟩
        exact htended.not_running_of_dropCache hperiod later
          ((Sweeper.mem_ticks hperiod).mpr ⟨⟨hafter, hupTo⟩, count, hcount, rfl⟩)

/-! ### An entry that expires just after a tick -/

/-- An empty cache for entries that expire after five nanoseconds, at a later time. -/
def shelf : Attended String Nat := ⟨3, some (.empty (.ofLimits 2 ⟨5⟩)), none⟩

/-- An entry that expires one nanosecond after a tick, and the time until the next one. -/
def lateEntry : List (Move String Nat) := [.wait ⟨6⟩, .act (.insert "a" 1), .wait ⟨13⟩]

/-- A read at the instant of a tick, before the sweep. -/
def readAtTick : List (Nat × Cache.Op String Nat) :=
  [(9, .insert "a" 1), (13, .get "a"), (13, .sweep), (22, .size)]

theorem attends_readAtTick : (Sweeper.start 3 ⟨10⟩).Attends 3 readAtTick 22 := by
  constructor
  · simp [readAtTick]
  · intro tick htick
    have hthirteen : tick = 13 := List.mem_singleton.mp htick
    simp [readAtTick, hthirteen]

/-- The entry is still stored when it has been idle for thirteen nanoseconds, fewer than the idle
time and a period, and gone after the tick. Had the sweeper been stopped before, it would stay. -/
theorem idle_of_lateEntry :
    0 < (⟨10⟩ : Duration).nanos ∧
    (((Cache.empty (.ofLimits 2 ⟨5⟩)).run readAtTick).2.entries = [⟨"a", 1, 13⟩] ∧
      22 - 13 < 5 + 10) ∧
    ∃ b left, shelf.startSweeper true ⟨10⟩ = .ok b ∧ (b.after lateEntry).now = 22 ∧
      (b.after lateEntry).cache = some left ∧ left.entries = [⟨"a", 1, 9⟩] ∧ 22 - 9 < 5 + 10 ∧
      23 ∈ (b.after lateEntry).sweeps ⟨1⟩ ∧ ∃ swept,
        ((b.after lateEntry).wait ⟨1⟩).cache = some swept ∧ swept.size = 0 ∧
        ((b.after lateEntry).stopSweeper.wait ⟨100⟩).cache = some left ∧
        ∃ keys : Finset String, (∀ key, key ∈ keys ↔ swept.contains 23 key = true) ∧
          swept.size = keys.card := by
  have hperiod : 0 < (⟨10⟩ : Duration).nanos := by decide
  obtain ⟨hany, hattended⟩ := @idle_entries_swept String Nat _ _ hperiod
  have hread : ((Cache.empty (.ofLimits 2 ⟨5⟩)).run readAtTick).2.entries = [⟨"a", 1, 13⟩] := rfl
  refine ⟨hperiod, ⟨hread, ?_⟩, ?_⟩
  · exact hany (.start 3 ⟨10⟩) _ readAtTick 22 rfl attends_readAtTick (by decide) ⟨"a", 1, 13⟩
      (hread ▸ List.mem_cons_self) (by decide)
  · obtain ⟨b, hb, -, hmoves⟩ := hattended shelf _ rfl
    cases hb
    obtain ⟨⟨-, left, hleft, hidle⟩, -, hsizes, ⟨hstopped, -, -⟩, -⟩ :=
      hmoves lateEntry (by decide)
    cases hleft
    obtain ⟨swept, hswept, hkeys⟩ := hsizes ⟨1⟩ (by decide)
    refine ⟨_, _, rfl, rfl, rfl, rfl, ?_, by decide, swept, hswept, ?_, ?_, hkeys⟩
    · exact hidle (by decide) ⟨"a", 1, 9⟩ List.mem_cons_self (by decide)
    · cases hswept
      rfl
    · exact (hstopped [] ⟨100⟩).2

end AccessControl.Attended
