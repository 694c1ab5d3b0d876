import AccessControl.Proofs.Verifier.Freshness
import AccessControl.Proofs.Verifier.Memory
import AccessControl.Proofs.Verifier.Transparency

/-!
How many successes a verifier remembers.

A check reads the clock twice, but it does what a check does for which the clock stands still at the
time when it counts (`step_instant`). So a run does what its instants do (`run_instants`), and after
instants the cache holds what the record says. A sweep leaves what is fresh of it, as far as there is
room: one entry for each pair whose latest success is not too old (`card_recentPairs`).

Main statement: `cacheSize_counts_recent`.
-/

namespace AccessControl.Verifier

/-! ### Recent pairs -/

namespace Record

variable {past : Record} {idle now : Nat} {pair : Bytes × Bytes}

/-- The pairs whose latest success since the memory was last wiped is less than a span before a
time. -/
def recentPairs (past : Record) (idle now : Nat) : Finset (Bytes × Bytes) :=
  (past.successes.map Success.pair).toFinset.filter fun pair =>
    ∃ since ∈ past.lastSuccess? pair, now - since < idle

/-- The latest successes that are recent are those of the recent pairs. -/
theorem recentPairs_eq (past : Record) (idle now : Nat) :
    past.recentPairs idle now = (((latest past.sinceWipe.successes).filter fun s =>
      now - s.time < idle).map Success.pair).toFinset := by
  ext pair
  rw [recentPairs, Finset.mem_filter]
  simp only [List.mem_toFinset, List.mem_map, List.mem_filter, decide_eq_true_eq, lastSuccess?,
    Option.mem_def, Option.map_eq_some_iff]
  constructor
  · rintro ⟨-, since, ⟨s, hfound, rfl⟩, hrecent⟩
    have hpair : s.pair = pair := by simpa using List.find?_some hfound
    subst hpair
    exact ⟨s, ⟨mem_latest_iff.mpr hfound, hrecent⟩, rfl⟩
  · rintro ⟨s, ⟨hs, hrecent⟩, rfl⟩
    exact ⟨⟨s, mem_of_mem_latest hs, rfl⟩, s.time, ⟨s, mem_latest_iff.mp hs, rfl⟩, hrecent⟩

/-- There is one entry to remember for each recent pair. -/
theorem card_recentPairs (past : Record) (keySecret : Bytes) (idle now : Nat) :
    (past.recentPairs idle now).card =
      ((memory keySecret past).filter (Entry.fresh idle now)).length := by
  have hpairs : (((latest past.sinceWipe.successes).filter fun s => now - s.time < idle).map
      Success.pair).Nodup :=
    (nodup_latest_pairs past.sinceWipe.successes).sublist (List.filter_sublist.map _)
  rw [recentPairs_eq, List.toFinset_card_of_nodup hpairs, List.length_map, memory, List.filter_map,
    List.length_map]
  rfl

end Record

/-! ### Instants -/

/-- The clock grows from one operation to the next, does not go back within one, and has not reached
its end. -/
structure GrowingClock (events : List Event) : Prop where
  increasing : events.Pairwise fun earlier later => earlier.answered < later.asked
  forward : ∀ e ∈ events, e.asked ≤ e.answered
  below : ∀ e ∈ events, e.answered < Clock.limit

instance (events : List Event) : Decidable (GrowingClock events) :=
  decidable_of_iff (events.Pairwise (fun earlier later => earlier.answered < later.asked) ∧
      (∀ e ∈ events, e.asked ≤ e.answered) ∧ ∀ e ∈ events, e.answered < Clock.limit)
    ⟨fun h => ⟨h.1, h.2.1, h.2.2⟩, fun h => ⟨h.increasing, h.forward, h.below⟩⟩

theorem GrowingClock.sublist {part events : List Event} (h : GrowingClock events)
    (hsub : part.Sublist events) : GrowingClock part :=
  ⟨h.increasing.sublist hsub, fun e he => h.forward e (hsub.subset he),
    fun e he => h.below e (hsub.subset he)⟩

/-- What was asked, at the one time from which it counts. -/
def Deed.instant (d : Deed) : Event := ⟨d.settled, d.settled, d.event.op⟩

/-- What was done, with the times from which it counts, the latest first. -/
def settledRecord (past : List Deed) : Record :=
  (past.map fun d => (d.instant, d.answer)).reverse

variable {σ : Type} {hasher : Hasher σ} {v : Verifier (List HashCall × σ)} {asked later : Nat}
  {secret stored : Bytes}

/-- What is not recalled is not recalled later. -/
theorem not_recalls_of_le (h : ¬ v.Recalls asked secret stored) (hlater : asked ≤ later) :
    ¬ v.Recalls later secret stored := by
  rintro ⟨e, hfound, hlive, htext⟩
  refine h ⟨e, hfound, ?_, htext⟩
  by_contra hexpired
  rw [Bool.not_eq_false] at hexpired
  rw [Cache.isExpired_mono hexpired (Nat.le_refl e.touched) hlater] at hlive
  cases hlive

theorem settled_of_still {e : Event} (hstill : (v.step e).2.hashing = v.hashing) :
    (v.deed e).settled = e.asked := by
  rw [Deed.settled, calls_of_still hstill]
  rfl

theorem settled_cases (d : Deed) : d.settled = d.event.asked ∨ d.settled = d.event.answered := by
  unfold Deed.settled
  split
  · exact Or.inl rfl
  · exact Or.inr rfl

/-- A check does the same in the instant from which it counts. -/
theorem verify_instant (hhasher : v.hasher = hasher.logging) {answered : Nat}
    (hforward : asked ≤ answered) :
    v.step (v.deed ⟨asked, answered, .verify secret stored⟩).instant =
      v.step ⟨asked, answered, .verify secret stored⟩ := by
  by_cases hrecalls : v.Recalls asked secret stored
  · have hsettled : (v.deed ⟨asked, answered, .verify secret stored⟩).settled = asked := by
      rw [Deed.settled, calls_of_recalls answered hrecalls]
      rfl
    rw [Deed.instant, hsettled]
    show v.step ⟨asked, asked, .verify secret stored⟩ = _
    rw [step_verify, step_verify, verify_of_recalls hrecalls, verify_of_recalls hrecalls]
  · have hcalls := calls_of_not_recalls answered hhasher hrecalls
    cases htext : Utf8.decode? stored with
    | none =>
        have hsettled : (v.deed ⟨asked, answered, .verify secret stored⟩).settled = asked := by
          rw [Deed.settled, hcalls, htext]
          rfl
        have hcheck : ∀ now (w : Verifier (List HashCall × σ)),
            w.check now secret stored = (false, w) := by
          intro now w
          simp only [check, htext]
        rw [Deed.instant, hsettled]
        show v.step ⟨asked, asked, .verify secret stored⟩ = _
        rw [step_verify, step_verify, verify_of_not_recalls hrecalls,
          verify_of_not_recalls hrecalls, hcheck, hcheck]
    | some text =>
        have hsettled : (v.deed ⟨asked, answered, .verify secret stored⟩).settled = answered := by
          rw [Deed.settled, hcalls, htext]
          rfl
        rw [Deed.instant, hsettled]
        show v.step ⟨answered, answered, .verify secret stored⟩ = _
        rw [step_verify, step_verify, verify_of_not_recalls hrecalls,
          verify_of_not_recalls (not_recalls_of_le hrecalls hforward)]

/-- Every operation does the same in the instant from which it counts. -/
theorem step_instant (hhasher : v.hasher = hasher.logging) {e : Event}
    (hforward : e.asked ≤ e.answered) : v.step (v.deed e).instant = v.step e := by
  obtain ⟨asked, answered, op⟩ := e
  cases op with
  | verify secret stored => exact verify_instant hhasher hforward
  | create secret => rfl
  | cacheSize => rw [Deed.instant, settled_of_still rfl]; rfl
  | clearCache => rfl
  | shutdown => rfl
  | sweep => rw [Deed.instant, settled_of_still rfl]; rfl

variable {events : List Event}

/-- A run does what its instants do. -/
theorem run_instants (hhasher : v.hasher = hasher.logging)
    (hforward : ∀ e ∈ events, e.asked ≤ e.answered) :
    v.run ((v.chronicle events).map Deed.instant) = v.run events := by
  induction events generalizing v with
  | nil => rfl
  | cons e rest ih =>
      have hstep := step_instant hhasher (hforward e List.mem_cons_self)
      have hnext : (v.step e).2.hasher = hasher.logging := (step_frame v e).2.1.trans hhasher
      rw [chronicle, List.map_cons, run_cons, run_cons, hstep,
        ih hnext fun b hb => hforward b (List.mem_cons_of_mem e hb)]

theorem record_instants (hhasher : v.hasher = hasher.logging)
    (hforward : ∀ e ∈ events, e.asked ≤ e.answered) :
    v.record ((v.chronicle events).map Deed.instant) = settledRecord (v.chronicle events) := by
  rw [record, run_instants hhasher hforward, ← map_answer_chronicle, List.zip_map', settledRecord]

theorem mem_of_mem_chronicle {d : Deed} (hd : d ∈ v.chronicle events) : d.event ∈ events := by
  have hmem := List.mem_map_of_mem (f := Deed.event) hd
  rwa [map_event_chronicle] at hmem

/-- Where the clock grows, it is strict over the instants. -/
theorem strictClock_instants (hclock : GrowingClock events) :
    StrictClock ((v.chronicle events).map Deed.instant) := by
  have hbetween : ∀ d ∈ v.chronicle events,
      d.event.asked ≤ d.settled ∧ d.settled ≤ d.event.answered := by
    intro d hd
    have hforward := hclock.forward d.event (mem_of_mem_chronicle hd)
    rcases settled_cases d with hsettled | hsettled <;> omega
  have hincreasing := hclock.increasing
  rw [← map_event_chronicle v events, List.pairwise_map] at hincreasing
  refine ⟨List.pairwise_map.mpr (hincreasing.imp_of_mem ?_), ?_, ?_⟩
  · intro earlier later hearlier hlater hlt
    exact Nat.lt_of_le_of_lt (hbetween earlier hearlier).2
      (Nat.lt_of_lt_of_le hlt (hbetween later hlater).1)
  · intro e he
    obtain ⟨d, -, rfl⟩ := List.mem_map.mp he
    rfl
  · intro e he
    obtain ⟨d, hd, rfl⟩ := List.mem_map.mp he
    exact Nat.lt_of_le_of_lt (hbetween d hd).2
      (hclock.below d.event (mem_of_mem_chronicle hd))

/-! ### The count -/

section Run

variable {config : Config} {hashing : σ} {keySecret : Bytes} {runtime : Bool} {now : Nat}

/-- After a run the cache holds what the record of its instants says. -/
theorem tracks_instants
    (hset : setUp config hasher.logging ([], hashing) keySecret runtime = .ok v)
    (hclock : GrowingClock events) {Q : Bytes × Bytes → Prop} (hseparated : Separated keySecret Q)
    (hQ : ∀ e ∈ events, ∀ secret stored, e.op = .verify secret stored → Q (secret, stored))
    (hnow : ∀ e ∈ events, e.answered < now) :
    Tracks Q (v.run events).2 (settledRecord (v.chronicle events)) now := by
  obtain ⟨-, -, hhasher, -, rfl, hcache⟩ := setUp_eq_ok hset
  rw [← run_instants hhasher hclock.forward, ← record_instants hhasher hclock.forward]
  refine tracks_run hcache (strictClock_instants hclock) hseparated ?_ ?_
  · intro e he secret stored hop
    obtain ⟨d, hd, rfl⟩ := List.mem_map.mp he
    exact hQ d.event (mem_of_mem_chronicle hd) secret stored hop
  · intro e he
    obtain ⟨d, hd, rfl⟩ := List.mem_map.mp he
    have hlt := hnow d.event (mem_of_mem_chronicle hd)
    have hforward := hclock.forward d.event (mem_of_mem_chronicle hd)
    show d.settled < now
    rcases settled_cases d with hsettled | hsettled <;> omega

/-- **The size of the memory is a count of pairs.** Whatever the hasher does, in a run of a verifier
that could be set up the number of remembered successes is the number of pairs whose latest success
since the memory was last wiped is less than the idle time ago, or the bound if there are more.
Expired, evicted and renewed entries do not show. The clock must grow from one operation to the next,
and no two pairs that are presented may have the same key. -/
theorem cacheSize_counts_recent
    (hset : setUp config hasher.logging ([], hashing) keySecret runtime = .ok v)
    (hclock : GrowingClock events) (hseparated : PairsSeparated keySecret events) {i : Nat}
    {d : Deed} (hat : (v.chronicle events)[i]? = some d) (hop : d.event.op = .cacheSize) :
    d.answer = .count (min config.maxEntries.toNat
      ((settledRecord ((v.chronicle events).take i)).recentPairs config.bounds.idleTimeout.nanos
        d.event.asked).card) := by
  rw [chronicle_getElem?] at hat
  obtain ⟨e, he, rfl⟩ := Option.map_eq_some_iff.mp hat
  have hpart : (events.take i ++ [e]).Sublist events := by
    have hsub := List.take_sublist (i + 1) events
    rwa [List.take_add_one, he] at hsub
  have hpast : (events.take i).Sublist events := List.take_sublist i events
  have hmem : e ∈ events := List.mem_of_getElem? he
  have hbefore : ∀ b ∈ events.take i, b.answered < e.asked := fun b hb =>
    (List.pairwise_append.mp (hclock.sublist hpart).increasing).2.2 b hb e
      (List.mem_singleton_self e)
  have hpresented : ∀ b ∈ events.take i, ∀ secret stored, b.op = .verify secret stored →
      Presented events secret stored := fun b hb secret stored hverify =>
    ⟨b, hpast.subset hb, hverify⟩
  have htracks := tracks_instants (Q := fun pair => Presented events pair.1 pair.2) hset
    (hclock.sublist hpast) hseparated hpresented hbefore
  have hlimit : e.asked < Clock.limit :=
    Nat.lt_of_le_of_lt (hclock.forward e hmem) (hclock.below e hmem)
  obtain ⟨-, -, hkey, hbounds⟩ := run_frame v (events.take i)
  obtain ⟨-, -, -, -, rfl, hcache⟩ := setUp_eq_ok hset
  have hsize := htracks.holds.size_sweep hlimit
  rw [hbounds, hkey, hcache] at hsize
  obtain ⟨asked, answered, op⟩ := e
  cases hop
  rw [chronicle_take, Record.card_recentPairs _ v.keySecret]
  exact congrArg Answer.count hsize

end Run

/-! ### Two places for three tokens -/

/-- A new verifier with two places, each for a millisecond. -/
def pigeonhole : Verifier (List HashCall × Unit) :=
  ⟨⟨2, 1, 1, none⟩, (acceptOnly [1]).logging, ([], ()), [7], .empty (Config.bounds ⟨2, 1, 1, none⟩),
    none⟩

/-- Three tokens that fit, the first of them twice, and the size of the memory at once and when only
the third token has not been idle for too long. -/
def threeTokens : List Event :=
  [⟨1, 2, .verify [1] (Utf8.encode "token")⟩, ⟨3, 4, .verify [1] (Utf8.encode "second")⟩,
    ⟨5, 6, .verify [1] (Utf8.encode "token")⟩, ⟨7, 8, .verify [1] (Utf8.encode "third")⟩,
    ⟨9, 9, .cacheSize⟩, ⟨1000006, 1000006, .cacheSize⟩]

theorem threeTokens_separated : PairsSeparated [7] threeTokens :=
  pairsSeparated_of_nodup (by decide +kernel)

/-- Of three recent pairs two are remembered, and later the one that is recent. -/
theorem sizes_of_threeTokens :
    setUp ⟨2, 1, 1, none⟩ (acceptOnly [1]).logging ([], ()) [7] false = .ok pigeonhole ∧
      GrowingClock threeTokens ∧ PairsSeparated [7] threeTokens ∧
      (∃ d, (pigeonhole.chronicle threeTokens)[4]? = some d ∧ d.answer = .count 2) ∧
      ∃ d, (pigeonhole.chronicle threeTokens)[5]? = some d ∧ d.answer = .count 1 := by
  have hset : setUp ⟨2, 1, 1, none⟩ (acceptOnly [1]).logging ([], ()) [7] false =
      .ok pigeonhole := rfl
  have hclock : GrowingClock threeTokens := by decide
  have hcards :
      ((settledRecord ((pigeonhole.chronicle threeTokens).take 4)).recentPairs 1000000 9).card = 3 ∧
        ((settledRecord ((pigeonhole.chronicle threeTokens).take 5)).recentPairs 1000000
          1000006).card = 1 := by
    decide +kernel
  have hfirst := pigeonhole.chronicle_getElem? threeTokens 4
  have hsecond := pigeonhole.chronicle_getElem? threeTokens 5
  refine ⟨hset, hclock, threeTokens_separated, ⟨_, hfirst, ?_⟩, ⟨_, hsecond, ?_⟩⟩
  · refine (cacheSize_counts_recent hset hclock threeTokens_separated hfirst rfl).trans ?_
    exact congrArg (fun card => Answer.count (min 2 card)) hcards.1
  · refine (cacheSize_counts_recent hset hclock threeTokens_separated hsecond rfl).trans ?_
    exact congrArg (fun card => Answer.count (min 2 card)) hcards.2

end AccessControl.Verifier
