import AccessControl.Proofs.Cache.Agreement
import AccessControl.Proofs.Verifier.Record

/-!
What the cache of a verifier holds, read off the record.

`memory` lists the entry of the latest success of each pair since the memory was last wiped. The
cache keeps up with this list (`Tracks`): each operation changes both in step (`Tracks.step`), so
after a run the cache holds the fresh entries of the list, as far as it has room (`tracks_run`).
In particular the verifier recalls exactly the pairs that the record says should be remembered
(`Tracks.recalls_iff`).

Times must grow from one operation to the next, so that the order of the list is the order of
the touches, and no two pairs may have the same key.
-/

namespace AccessControl.Verifier

variable {σ : Type} {keySecret : Bytes} {past : Record} {now later : Nat}

/-! ### The list -/

/-- The entry that a success leaves. -/
def Success.entry (keySecret : Bytes) (s : Success) : Entry CacheKey String :=
  ⟨CacheKey.derive keySecret s.pair.1 s.pair.2, (Utf8.decode? s.pair.2).getD "", s.time⟩

/-- The entries of the latest successes since the memory was last wiped, the last one in front. -/
def memory (keySecret : Bytes) (past : Record) : List (Entry CacheKey String) :=
  (latest past.sinceWipe.successes).map (Success.entry keySecret)

/-- No two different pairs of a kind have the same key. -/
def Separated (keySecret : Bytes) (Q : Bytes × Bytes → Prop) : Prop :=
  ∀ p q, Q p → Q q →
    CacheKey.derive keySecret p.1 p.2 = CacheKey.derive keySecret q.1 q.2 → p = q

variable {Q : Bytes × Bytes → Prop}

theorem mem_of_mem_latest {s : Success} (h : s ∈ latest past.sinceWipe.successes) :
    s ∈ past.successes :=
  ((latest_sublist _).trans ((List.takeWhile_sublist _).filterMap success?)).subset h

theorem memory_byRecency (h : past.Timed now) : Entry.ByRecency (memory keySecret past) :=
  List.pairwise_map.mpr (h.sinceWipe.byTime.sublist (latest_sublist _))

theorem memory_before (h : past.Timed now) :
    ∀ e ∈ memory keySecret past, e.touched < now := by
  intro e he
  obtain ⟨s, hs, rfl⟩ := List.mem_map.mp he
  exact h.lt_of_mem (mem_of_mem_latest hs)

theorem nodup_memory_keys (hseparated : Separated keySecret Q)
    (hknown : ∀ s ∈ past.successes, Q s.pair) :
    ((memory keySecret past).map Entry.key).Nodup := by
  have hpairs := nodup_latest_pairs past.sinceWipe.successes
  rw [memory, List.map_map]
  refine List.Nodup.map_on ?_ (List.Nodup.of_map _ hpairs)
  intro s hs t ht hsame
  have hpair := hseparated s.pair t.pair (hknown s (mem_of_mem_latest hs))
    (hknown t (mem_of_mem_latest ht)) hsame
  exact List.inj_on_of_nodup_map hpairs hs ht hpair

/-- A wipe leaves nothing to remember. -/
theorem memory_of_wipes {e : Event} (h : e.op.wipes = true) (answer : Answer) :
    memory keySecret ((e, answer) :: past) = [] := by
  rw [memory, Record.sinceWipe, List.takeWhile_cons_of_neg (by simp [h])]
  rfl

/-- What is no success changes nothing to be remembered. -/
theorem memory_of_quiet {e : Event} {answer : Answer} (hwipes : e.op.wipes = false)
    (h : success? (e, answer) = none) :
    memory keySecret ((e, answer) :: past) = memory keySecret past := by
  rw [memory, Record.sinceWipe, List.takeWhile_cons_of_pos (by simp [hwipes]), Record.successes,
    List.filterMap_cons_none h]
  rfl

/-- A success goes to the front, in place of an earlier one of its pair. -/
theorem memory_of_success {asked answered : Nat} {secret stored : Bytes} {text : String}
    (hseparated : Separated keySecret Q) (hknown : ∀ s ∈ past.successes, Q s.pair)
    (hQ : Q (secret, stored)) (htext : Utf8.decode? stored = some text) :
    memory keySecret ((⟨asked, answered, .verify secret stored⟩, .verdict true) :: past) =
      ⟨CacheKey.derive keySecret secret stored, text, asked⟩ ::
        Entry.without (CacheKey.derive keySecret secret stored) (memory keySecret past) := by
  have hsuccess : success? (⟨asked, answered, .verify secret stored⟩, .verdict true) =
      some ⟨asked, (secret, stored)⟩ := rfl
  rw [memory, Record.sinceWipe, List.takeWhile_cons_of_pos rfl, Record.successes,
    List.filterMap_cons_some hsuccess, latest, List.map_cons, Success.entry, htext]
  congr 1
  rw [memory, Entry.without, List.filter_map]
  congr 1
  refine List.filter_congr fun s hs => decide_eq_decide.mpr (not_congr ⟨?_, ?_⟩)
  · exact congrArg fun pair : Bytes × Bytes => CacheKey.derive keySecret pair.1 pair.2
  · exact hseparated s.pair (secret, stored) (hknown s (mem_of_mem_latest hs)) hQ

/-! ### Keeping up -/

/-- Before a time, the cache of a verifier holds what the record says, and all pairs on record are
of a kind and have texts as stored tokens. -/
structure Tracks (Q : Bytes × Bytes → Prop) (v : Verifier σ) (past : Record) (now : Nat) :
    Prop where
  timed : past.Timed now
  known : ∀ s ∈ past.successes, Q s.pair
  texts : ∀ s ∈ past.successes, (Utf8.decode? s.pair.2).isSome
  holds : v.cache.Holds now (memory v.keySecret past)

variable {v w : Verifier σ}

/-- What is found alive under the key of a pair is the entry of its latest success. -/
theorem Tracks.found_iff (h : Tracks Q v past now) (hseparated : Separated v.keySecret Q)
    {secret stored : Bytes} (hQ : Q (secret, stored)) (hnow : now < Clock.limit)
    {e : Entry CacheKey String} :
    v.cache.find? (v.key secret stored) = some e ∧ v.cache.isExpired now e = false ↔
      ∃ s ∈ (latest past.sinceWipe.successes).take v.cache.bounds.maxEntries,
        s.pair = (secret, stored) ∧ now - s.time < v.cache.bounds.idleTimeout.nanos ∧
          s.entry v.keySecret = e := by
  rw [h.holds.found_iff (memory_byRecency h.timed) hnow, memory, ← List.map_take, List.mem_map]
  constructor
  · rintro ⟨⟨⟨s, hs, rfl⟩, hfresh⟩, hkey⟩
    refine ⟨s, hs, ?_, of_decide_eq_true hfresh, rfl⟩
    exact hseparated s.pair (secret, stored)
      (h.known s (mem_of_mem_latest (List.mem_of_mem_take hs))) hQ hkey
  · rintro ⟨s, hs, hpair, hidle, rfl⟩
    refine ⟨⟨⟨s, hs, rfl⟩, decide_eq_true hidle⟩, ?_⟩
    rw [Success.entry, hpair, key]

/-- The entry of a success on record holds the stored token. -/
theorem Tracks.decode?_of_mem (h : Tracks Q v past now) {s : Success}
    (hs : s ∈ latest past.sinceWipe.successes) :
    Utf8.decode? s.pair.2 = some (s.entry v.keySecret).value := by
  obtain ⟨text, htext⟩ := Option.isSome_iff_exists.mp (h.texts s (mem_of_mem_latest hs))
  rw [Success.entry, htext]
  rfl

/-- What is found alive under the key of a pair is recalled. -/
theorem Tracks.recalls_of_found (h : Tracks Q v past now) (hseparated : Separated v.keySecret Q)
    {secret stored : Bytes} (hQ : Q (secret, stored)) (hnow : now < Clock.limit)
    {e : Entry CacheKey String} (hfound : v.cache.find? (v.key secret stored) = some e)
    (hlive : v.cache.isExpired now e = false) : v.Recalls now secret stored := by
  obtain ⟨s, hs, hpair, -, rfl⟩ := (h.found_iff hseparated hQ hnow).mp ⟨hfound, hlive⟩
  have htext := h.decode?_of_mem (List.mem_of_mem_take hs)
  rw [hpair] at htext
  exact ⟨_, hfound, hlive, htext⟩

/-- The verifier recalls exactly what the record says should be remembered. -/
theorem Tracks.recalls_iff {config : Config} (h : Tracks Q v past now)
    (hseparated : Separated v.keySecret Q) {secret stored : Bytes} (hQ : Q (secret, stored))
    (hbounds : v.cache.bounds = config.bounds) (hnow : now < Clock.limit) :
    v.Recalls now secret stored ↔ past.Remembers config (secret, stored) now := by
  rw [Record.remembers_iff h.timed]
  constructor
  · rintro ⟨e, hfound, hlive, -⟩
    obtain ⟨s, hs, hpair, hidle, -⟩ := (h.found_iff hseparated hQ hnow).mp ⟨hfound, hlive⟩
    rw [hbounds] at hs hidle
    exact ⟨s, hs, hpair, hidle⟩
  · rintro ⟨s, hs, hpair, hidle⟩
    obtain ⟨hfound, hlive⟩ := (h.found_iff hseparated hQ hnow).mpr
      ⟨s, by rwa [hbounds], hpair, by rwa [hbounds], rfl⟩
    exact h.recalls_of_found hseparated hQ hnow hfound hlive

/-- One more operation on record, given that the cache keeps up and that a success is of the kind
and of a text. -/
theorem Tracks.extend {e : Event} {answer : Answer} (h : Tracks Q v past e.asked)
    (hlater : e.asked < later)
    (hnew : ∀ s, success? (e, answer) = some s →
      Q s.pair ∧ (Utf8.decode? s.pair.2).isSome)
    (hholds : w.cache.Holds later (memory w.keySecret ((e, answer) :: past))) :
    Tracks Q w ((e, answer) :: past) later := by
  have hcases : ∀ s ∈ Record.successes ((e, answer) :: past),
      success? (e, answer) = some s ∨ s ∈ past.successes := by
    intro s hs
    obtain ⟨entry, hentry, hsome⟩ := List.mem_filterMap.mp hs
    rcases List.mem_cons.mp hentry with rfl | hentry
    · exact Or.inl hsome
    · exact Or.inr (List.mem_filterMap.mpr ⟨entry, hentry, hsome⟩)
  refine ⟨⟨List.pairwise_cons.mpr ⟨h.timed.2, h.timed.1⟩, ?_⟩, ?_, ?_, hholds⟩
  · intro entry hentry
    rcases List.mem_cons.mp hentry with rfl | hentry
    · exact hlater
    · exact Nat.lt_trans (h.timed.2 entry hentry) hlater
  · intro s hs
    rcases hcases s hs with hsome | hold
    · exact (hnew s hsome).1
    · exact h.known s hold
  · intro s hs
    rcases hcases s hs with hsome | hold
    · exact (hnew s hsome).2
    · exact h.texts s hold

/-- An operation that neither wipes nor succeeds is on record without a trace in the memory. -/
theorem Tracks.quiet {e : Event} {answer : Answer} (h : Tracks Q v past e.asked)
    (hlater : e.asked < later) (hwipes : e.op.wipes = false)
    (hnone : success? (e, answer) = none) (hkey : w.keySecret = v.keySecret)
    (hholds : w.cache.Holds e.asked (memory v.keySecret past)) :
    Tracks Q w ((e, answer) :: past) later := by
  refine h.extend hlater (fun s hs => ?_) ?_
  · rw [hnone] at hs
    cases hs
  · rw [hkey, memory_of_quiet hwipes hnone]
    exact hholds.mono (Nat.le_of_lt hlater)

/-- An operation that wipes leaves an empty memory and an empty cache. -/
theorem Tracks.wiped {e : Event} {answer : Answer} (h : Tracks Q v past e.asked)
    (hlater : e.asked < later) (hwipes : e.op.wipes = true)
    (hnone : success? (e, answer) = none) (hcache : w.cache = v.cache.clear) :
    Tracks Q w ((e, answer) :: past) later := by
  refine h.extend hlater (fun s hs => ?_) ?_
  · rw [hnone] at hs
    cases hs
  · rw [hcache, memory_of_wipes hwipes]
    exact Cache.Holds.empty _ _

/-- A success is on record as the latest one, and its entry is the last one touched. -/
theorem Tracks.success {asked answered : Nat} {secret stored : Bytes} {text : String}
    (h : Tracks Q v past asked) (hlater : asked < later)
    (hseparated : Separated v.keySecret Q) (hQ : Q (secret, stored))
    (htext : Utf8.decode? stored = some text) (hkey : w.keySecret = v.keySecret)
    (hholds : w.cache.Holds later (⟨v.key secret stored, text, asked⟩ ::
      Entry.without (v.key secret stored) (memory v.keySecret past))) :
    Tracks Q w ((⟨asked, answered, .verify secret stored⟩, .verdict true) :: past) later := by
  refine Tracks.extend h hlater (fun s hs => ?_) ?_
  · cases hs
    exact ⟨hQ, Option.isSome_iff_exists.mpr ⟨text, htext⟩⟩
  · rw [hkey, memory_of_success hseparated h.known hQ htext]
    exact hholds

/-- A check keeps the cache and the record in step, whether it is answered from the memory or by
the hash. -/
theorem Tracks.verify {asked : Nat} {secret stored : Bytes} (h : Tracks Q v past asked)
    (hlater : asked < later) (hseparated : Separated v.keySecret Q) (hQ : Q (secret, stored))
    (hlimit : asked < Clock.limit) :
    Tracks Q (v.step ⟨asked, asked, .verify secret stored⟩).2
      ((⟨asked, asked, .verify secret stored⟩,
        (v.step ⟨asked, asked, .verify secret stored⟩).1) :: past) later := by
  have hkeys := nodup_memory_keys hseparated h.known
  have hbefore : ∀ e ∈ memory v.keySecret past, e.touched < asked := memory_before h.timed
  rw [step_verify]
  by_cases hrecalls : v.Recalls asked secret stored
  · obtain ⟨e, hfound, -, htext⟩ := id hrecalls
    rw [verify_of_recalls hrecalls]
    exact h.success hlater hseparated hQ htext rfl
      (h.holds.touch hkeys hbefore hfound hlimit hlater)
  · -- What is fresh under the key would be recalled, so nothing that matters is removed.
    have hstale : ∀ e, v.cache.find? (v.key secret stored) = some e →
        v.cache.isExpired asked e = true := by
      intro e hfound
      by_contra hlive
      rw [Bool.not_eq_true] at hlive
      exact hrecalls (h.recalls_of_found hseparated hQ hlimit hfound hlive)
    have hholds := h.holds.erase_stale hlimit hstale
    rw [verify_of_not_recalls hrecalls]
    rcases check_cases { v with cache := v.cache.erase (v.key secret stored) } asked secret
      stored with ⟨-, hcheck⟩ | ⟨text, htext, ⟨-, hcheck⟩ | ⟨-, hcheck⟩⟩
    · rw [hcheck]
      exact Tracks.quiet (v := v) h hlater rfl rfl rfl hholds
    · rw [hcheck]
      exact h.success hlater hseparated hQ htext rfl
        (hholds.insert hkeys hbefore hlimit hlater text)
    · rw [hcheck]
      exact Tracks.quiet (v := v) h hlater rfl rfl rfl hholds

/-- Every operation keeps the cache and the record in step. -/
theorem Tracks.step {e : Event} (h : Tracks Q v past e.asked) (hlater : e.asked < later)
    (hstill : e.answered = e.asked) (hlimit : e.asked < Clock.limit)
    (hseparated : Separated v.keySecret Q)
    (hQ : ∀ secret stored, e.op = .verify secret stored → Q (secret, stored)) :
    Tracks Q (v.step e).2 ((e, (v.step e).1) :: past) later := by
  obtain ⟨asked, answered, op⟩ := e
  cases hstill
  cases op with
  | verify secret stored => exact h.verify hlater hseparated (hQ secret stored rfl) hlimit
  | create secret =>
      rw [step_create, createCredential_snd]
      exact h.quiet hlater rfl rfl rfl h.holds
  | cacheSize => exact h.quiet hlater rfl rfl rfl (h.holds.sweep hlimit)
  | clearCache => exact h.wiped hlater rfl rfl rfl
  | shutdown => exact h.wiped hlater rfl rfl rfl
  | sweep => exact h.quiet hlater rfl rfl rfl (h.holds.sweep hlimit)

/-- After every run from an empty cache the cache holds what the record says. -/
theorem tracks_run {bounds : Bounds} (hempty : v.cache = .empty bounds) {events : List Event}
    (hclock : StrictClock events) (hseparated : Separated v.keySecret Q)
    (hQ : ∀ e ∈ events, ∀ secret stored, e.op = .verify secret stored → Q (secret, stored))
    (hnow : ∀ e ∈ events, e.asked < now) :
    Tracks Q (v.run events).2 (v.record events) now := by
  induction events using List.reverseRecOn generalizing now with
  | nil =>
      refine ⟨⟨List.Pairwise.nil, fun _ h => absurd h List.not_mem_nil⟩,
        fun _ h => absurd h List.not_mem_nil, fun _ h => absurd h List.not_mem_nil, ?_⟩
      show v.cache.Holds now []
      rw [hempty]
      exact Cache.Holds.empty bounds now
  | append_singleton before e ih =>
      have he : e ∈ before ++ [e] := by simp
      have hbefore : ∀ b ∈ before, b.asked < e.asked := fun b hb =>
        (List.pairwise_append.mp hclock.increasing).2.2 b hb e (List.mem_singleton_self e)
      have htracks := ih (hclock.sublist (List.sublist_append_left before [e]))
        (fun b hb => hQ b (List.mem_append_left _ hb)) hbefore
      rw [record_append_singleton, run_append]
      refine htracks.step (hnow e he) (hclock.still e he) (hclock.below e he) ?_ (hQ e he)
      rwa [(run_frame v before).2.2.1]

end AccessControl.Verifier
