import AccessControl.Proofs.Cache.Chronicle
import AccessControl.Proofs.Cache.ClockWords
import AccessControl.Proofs.Cache.Recency

/-!
Expiry over a run.

`lastTouch?` reads from the chronicle of a run when the entry under a key was last touched: at the
last insertion under the key, or at a later read that found it. What the cache holds is dated by it
(`Dated`, `Dated.run`).

The clock stops at its limit, and so does the idle time. Before the limit the comparison of the two
is exact. From then on the time since a touch may come out too short, and an entry may be kept for
too long. It is not removed too soon: that takes an idle time which has come out too short as well,
and a clock that has run for as long as it can since the touch.

Main statement: `expiresOnTime_run`.
-/

namespace AccessControl.Cache

variable {κ ν : Type} [DecidableEq κ]

/-! ### The last touch -/

/-- When the entry under a key was last touched. -/
def lastTouch? (key : κ) (past : List (Deed κ ν)) : Option Nat :=
  past.foldl (fun last d => if d.touches key then some d.time else last) none

theorem lastTouch?_append_singleton (key : κ) (past : List (Deed κ ν)) (d : Deed κ ν) :
    lastTouch? key (past ++ [d]) =
      if d.touches key then some d.time else lastTouch? key past := by
  rw [lastTouch?, List.foldl_append]
  rfl

/-! ### What a cache holds -/

variable {c : Cache κ ν} {past : List (Deed κ ν)} {ops : List (Nat × Op κ ν)} {e : Entry κ ν}
  {key : κ} {a b last now : Nat}

/-- What a cache holds was last touched, by what was done before a time, when its entry says. -/
def Dated (c : Cache κ ν) (past : List (Deed κ ν)) (now : Nat) : Prop :=
  ∀ e ∈ c.entries, ∃ a, lastTouch? e.key past = some a ∧ a ≤ now ∧ e.touched = Clock.reading a

theorem Dated.mono (h : c.Dated past last) (hlast : last ≤ now) : c.Dated past now := by
  intro e he
  obtain ⟨a, htouch, hle, htouched⟩ := h e he
  exact ⟨a, htouch, Nat.le_trans hle hlast, htouched⟩

theorem Dated.step (h : c.Dated past last) (hlast : last ≤ now) (op : Op κ ν) :
    (c.step now op).2.Dated (past ++ [c.deed now op]) now := by
  intro e he
  rw [lastTouch?_append_singleton]
  rcases mem_step_cases he with ⟨hnot, hold⟩ | ⟨htouches, old, hold, rfl⟩ | ⟨htouches, htouched⟩
  · rw [hnot]
    exact h.mono hlast e hold
  · -- What was touched before was touched no later.
    obtain ⟨a, -, hle, hearlier⟩ := h.mono hlast old hold
    have hbefore : old.touched ≤ Clock.reading now := by
      unfold Clock.reading at hearlier ⊢
      omega
    exact ⟨now, if_pos htouches, Nat.le_refl now, Nat.max_eq_right hbefore⟩
  · exact ⟨now, if_pos htouches, Nat.le_refl now, htouched⟩

/-- Over a run in the order of time, what a cache holds stays dated. -/
theorem Dated.run (h : c.Dated past last)
    (hordered : ops.Pairwise fun earlier later => earlier.1 ≤ later.1)
    (hfrom : ∀ op ∈ ops, last ≤ op.1) (hto : ∀ op ∈ ops, op.1 ≤ b) (hlast : last ≤ b) :
    (c.run ops).2.Dated (past ++ c.chronicle ops) b := by
  induction ops generalizing c past last with
  | nil => simpa [chronicle] using h.mono hlast
  | cons timed rest ih =>
      obtain ⟨now, op⟩ := timed
      obtain ⟨hlater, hrest⟩ := List.pairwise_cons.mp hordered
      have hstep := h.step (hfrom _ List.mem_cons_self) op
      have hrun := ih hstep hrest hlater (fun op hop => hto op (List.mem_cons_of_mem _ hop))
        (hto _ List.mem_cons_self)
      rwa [List.append_assoc] at hrun

/-! ### Being treated as expired -/

/-- At a time, a read gives nothing and removes the entry, and it is not reported. -/
structure TakesAsExpired (c : Cache κ ν) (now : Nat) (e : Entry κ ν) : Prop where
  get : c.get now e.key = (none, c.erase e.key)
  contains : c.contains now e.key = false

/-- At a time, a read gives the value and touches the entry, and it is reported. -/
structure TakesAsLive (c : Cache κ ν) (now : Nat) (e : Entry κ ν) : Prop where
  get : c.get now e.key = (some e.value, c.touch now e.key)
  contains : c.contains now e.key = true

theorem takesAsExpired_iff (hfound : c.find? e.key = some e) :
    c.TakesAsExpired now e ↔ c.isExpired now e = true := by
  constructor
  · intro h
    by_contra hlive
    have hget := get_of_live hfound (Bool.eq_false_iff.mpr hlive)
    rw [h.get] at hget
    cases hget
  · intro hexpired
    exact ⟨get_of_expired hfound hexpired, by simp [contains, hfound, hexpired]⟩

theorem takesAsLive_iff (hfound : c.find? e.key = some e) :
    c.TakesAsLive now e ↔ c.isExpired now e = false := by
  constructor
  · intro h
    by_contra hexpired
    have hget := get_of_expired hfound (Bool.not_eq_false _ ▸ hexpired)
    rw [h.get] at hget
    cases hget
  · intro hlive
    exact ⟨get_of_live hfound hlive, contains_iff.mpr ⟨e, hfound, hlive⟩⟩

/-! ### At the limit of the clock -/

omit [DecidableEq κ] in
/-- With the clock at its limit, an entry that has not been idle for the idle time has expired only
if it was touched at the start and the idle time is out of range of the clock. -/
theorem isExpired_iff_of_limit_le (hb : Clock.limit ≤ b) (htouched : e.touched = Clock.reading a)
    (hidle : b - a < c.bounds.idleTimeout.nanos) :
    c.isExpired b e = true ↔ a = 0 ∧ UInt64.size ≤ c.bounds.idleTimeout.nanos := by
  rw [isExpired, decide_eq_true_eq, Bounds.idleReading, htouched]
  have hlimit : Clock.limit + 1 = UInt64.size := rfl
  have hsize : 0 < Clock.limit := by decide
  unfold Clock.reading
  omega

/-- How an entry last touched at one time is treated at another, with times and the idle time as
unbounded numbers. -/
structure ExpiresOnTime (c : Cache κ ν) (idle : Duration) (a b : Nat) (e : Entry κ ν) : Prop where
  exact : b < Clock.limit →
    (c.TakesAsExpired b e ↔ idle.nanos ≤ b - a) ∧ (c.TakesAsLive b e ↔ b - a < idle.nanos)
  /-- With the clock at its limit, an entry is kept for the idle time with one exception. -/
  neverEarly : Clock.limit ≤ b → b - a < idle.nanos →
    (c.TakesAsExpired b e ↔ a = 0 ∧ UInt64.size ≤ idle.nanos) ∧
    (c.TakesAsLive b e ↔ ¬(a = 0 ∧ UInt64.size ≤ idle.nanos))
  /-- On the way, no machine word has a fault. -/
  inWords : idle.seconds < UInt64.size → (Duration.mk b).seconds < UInt64.size →
    ∃ touched, ClockWords.reading ⟨a⟩ = .ok touched ∧ touched.toNat = e.touched ∧
      ClockWords.isExpired idle ⟨b⟩ touched = .ok (c.isExpired b e)

theorem ExpiresOnTime.of_touched (hfound : c.find? e.key = some e) (hle : a ≤ b)
    (htouched : e.touched = Clock.reading a) : c.ExpiresOnTime c.bounds.idleTimeout a b e where
  exact hb := by
    have hreading : e.touched = a :=
      htouched.trans (Nat.min_eq_left (Nat.le_of_lt (Nat.lt_of_le_of_lt hle hb)))
    have hiff : c.isExpired b e = true ↔ c.bounds.idleTimeout.nanos ≤ b - a := by
      rw [isExpired_iff hb, hreading]
    rw [takesAsExpired_iff hfound, takesAsLive_iff hfound, ← Bool.not_eq_true, hiff, Nat.not_le]
    exact ⟨Iff.rfl, Iff.rfl⟩
  neverEarly hb hidle := by
    rw [takesAsExpired_iff hfound, takesAsLive_iff hfound, ← Bool.not_eq_true,
      isExpired_iff_of_limit_le hb htouched hidle]
    exact ⟨Iff.rfl, Iff.rfl⟩
  inWords hidle hb := by
    have ha : (Duration.mk a).seconds < UInt64.size :=
      Nat.lt_of_le_of_lt (Nat.div_le_div_right hle) hb
    obtain ⟨touched, hword, hvalue⟩ := ClockWords.reading_eq ha
    rw [← htouched] at hvalue
    exact ⟨touched, hword, hvalue, ClockWords.isExpired_eq hidle hb hvalue⟩

/-- **Before the clock stands at its limit, expiry is exact. From then on it is never early, save
for an entry that was touched at the start under an idle time out of range of the clock. No machine
word has a fault on the way.** -/
theorem expiresOnTime_run {bounds : Bounds}
    (hordered : ops.Pairwise fun earlier later => earlier.1 ≤ later.1)
    (hlater : ∀ op ∈ ops, op.1 ≤ b)
    (hfound : ((empty bounds : Cache κ ν).run ops).2.find? key = some e) :
    ∃ a, lastTouch? key ((empty bounds : Cache κ ν).chronicle ops) = some a ∧ a ≤ b ∧
      ((empty bounds : Cache κ ν).run ops).2.ExpiresOnTime bounds.idleTimeout a b e := by
  have hempty : (empty bounds : Cache κ ν).Dated [] 0 := fun e he => absurd he List.not_mem_nil
  have hdated : ((empty bounds : Cache κ ν).run ops).2.Dated
      ((empty bounds : Cache κ ν).chronicle ops) b :=
    hempty.run hordered (fun op _ => Nat.zero_le op.1) hlater (Nat.zero_le b)
  obtain ⟨he, rfl⟩ := find?_eq_some_iff.mp hfound
  obtain ⟨a, htouch, hle, htouched⟩ := hdated e he
  have hontime := ExpiresOnTime.of_touched hfound hle htouched
  rw [run_bounds] at hontime
  exact ⟨a, htouch, hle, hontime⟩

/-- Bounds whose idle time is out of range of the clock. -/
def patientBounds : Bounds := .ofLimits 4 ⟨UInt64.size⟩

/-- A key is touched at the start, and another is read somewhat later. -/
def earlyTouches : List (Nat × Op Nat Nat) := [(0, .insert 1 10), (5, .insert 2 20), (7, .get 2)]

/-- The cache after `earlyTouches`. -/
def patientCache : Cache Nat Nat := ((empty patientBounds).run earlyTouches).2

/-- Neither of two entries has been idle for the idle time when the clock stands at its limit. The
one touched at the start is taken as expired there, and no earlier; the other one is kept. -/
theorem kept_at_limit :
    patientCache.TakesAsLive Clock.limit ⟨2, 20, 7⟩ ∧
      patientCache.TakesAsLive (Clock.limit - 1) ⟨1, 10, 0⟩ ∧
      patientCache.TakesAsExpired Clock.limit ⟨1, 10, 0⟩ ∧
      ∃ touched, ClockWords.reading ⟨7⟩ = .ok touched ∧
        ClockWords.isExpired patientBounds.idleTimeout ⟨Clock.limit⟩ touched = .ok false := by
  have hordered : earlyTouches.Pairwise fun earlier later => earlier.1 ≤ later.1 := by decide
  have hbelow : ∀ op ∈ earlyTouches, op.1 ≤ Clock.limit - 1 := by decide
  have hlater : ∀ op ∈ earlyTouches, op.1 ≤ Clock.limit := fun op hop =>
    Nat.le_trans (hbelow op hop) (Nat.sub_le _ _)
  have hfirst : patientCache.find? 1 = some ⟨1, 10, 0⟩ := by decide
  have hsecond : patientCache.find? 2 = some ⟨2, 20, 7⟩ := by decide
  obtain ⟨a, ha, -, hread⟩ := expiresOnTime_run hordered hlater hsecond
  obtain rfl : 7 = a := Option.some.inj ha
  obtain ⟨start, hstart, -, hlimit⟩ := expiresOnTime_run hordered hlater hfirst
  obtain rfl : 0 = start := Option.some.inj hstart
  obtain ⟨start, hstart, -, hbefore⟩ := expiresOnTime_run hordered hbelow hfirst
  obtain rfl : 0 = start := Option.some.inj hstart
  obtain ⟨touched, hword, -, hinWords⟩ := hread.inWords (by decide) (by decide)
  refine ⟨(hread.neverEarly (Nat.le_refl _) (by decide)).2.mpr (by decide),
    (hbefore.exact (by decide)).2.mpr (by decide),
    (hlimit.neverEarly (Nat.le_refl _) (by decide)).1.mpr (by decide), touched, hword, ?_⟩
  exact hinWords.trans (congrArg Except.ok (by decide))

end AccessControl.Cache
