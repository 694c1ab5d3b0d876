import AccessControl.Proofs.Verifier.Memory
import AccessControl.Proofs.Verifier.Transparency

/-!
When a check is answered without the hash.

The hasher counts its calls. A check that recalls a success makes none; every other check makes one
if the stored token is a text and none otherwise (`verify_calls_of_recalls`,
`verify_calls_of_not_recalls`). With what the cache holds read off the record, this gives the exact
law for every hasher, also for one that changes its mind or fails.

Main statement: `hash_skipped_iff_remembered`.
-/

namespace AccessControl.Verifier

variable {σ : Type} {hasher : Hasher σ} {v : Verifier (Nat × σ)} {asked answered : Nat}
  {secret stored : Bytes}

/-! ### The calls of one operation -/

theorem counting_crypt (hasher : Hasher σ) (secret : Bytes) (existing : Option String)
    (state : Nat × σ) : (hasher.counting.crypt secret existing state).2.1 = state.1 + 1 := rfl

/-- A recalled success costs no call. -/
theorem verify_calls_of_recalls (h : v.Recalls asked secret stored) :
    (v.verify asked answered secret stored).1 = true ∧
      (v.verify asked answered secret stored).2.hashing.1 = v.hashing.1 := by
  rw [verify_of_recalls h]
  exact ⟨rfl, rfl⟩

/-- Without a recalled success the hasher is called once, unless the stored token is no text; then
the check fails. -/
theorem verify_calls_of_not_recalls (hhasher : v.hasher = hasher.counting)
    (h : ¬ v.Recalls asked secret stored) :
    ((v.verify asked answered secret stored).2.hashing.1 =
        v.hashing.1 + if (Utf8.decode? stored).isSome then 1 else 0) ∧
      ((Utf8.decode? stored).isSome = false →
        (v.verify asked answered secret stored).1 = false) := by
  constructor
  · rw [verify_of_not_recalls h, check_hashing]
    cases Utf8.decode? stored with
    | none => rfl
    | some text =>
        simp only [hhasher]
        exact counting_crypt _ _ _ _
  · intro hnone
    have htextless : Utf8.decode? stored = none :=
      Option.isNone_iff_eq_none.mp (Option.isSome_eq_false_iff.mp hnone)
    exact verify_of_no_text htextless asked answered

/-- A check is true without a call of the hasher exactly when it recalls a success. -/
theorem verify_free_iff (hhasher : v.hasher = hasher.counting) :
    (v.verify asked answered secret stored).1 = true ∧
      (v.verify asked answered secret stored).2.hashing.1 = v.hashing.1 ↔
      v.Recalls asked secret stored := by
  refine ⟨fun ⟨htrue, hcalls⟩ => ?_, verify_calls_of_recalls⟩
  by_contra hrecalls
  obtain ⟨hcost, hfalse⟩ := verify_calls_of_not_recalls hhasher hrecalls
  cases htext : (Utf8.decode? stored).isSome with
  | false =>
      rw [hfalse htext] at htrue
      cases htrue
  | true =>
      rw [htext] at hcost
      simp only [if_true] at hcost
      omega

/-- Whatever is asked, the calls are those that the record accounts for. -/
theorem step_calls {config : Config} {past : Record} {e : Event}
    (hhasher : v.hasher = hasher.counting)
    (hrecalls : ∀ secret stored, e.op = .verify secret stored →
      (v.Recalls e.asked secret stored ↔ past.Remembers config (secret, stored) e.asked)) :
    (v.step e).2.hashing.1 = v.hashing.1 + past.cost config e := by
  obtain ⟨asked, answered, op⟩ := e
  cases op with
  | verify secret stored =>
      have hiff := hrecalls secret stored rfl
      rw [step_verify]
      simp only [Record.cost]
      by_cases h : v.Recalls asked secret stored
      · rw [if_pos (hiff.mp h)]
        exact (verify_calls_of_recalls h).2
      · rw [if_neg fun hremembers => h (hiff.mpr hremembers)]
        exact (verify_calls_of_not_recalls hhasher h).1
  | create secret =>
      rw [step_create, createCredential_snd, hhasher]
      exact counting_crypt _ _ _ _
  | cacheSize => rfl
  | clearCache => rfl
  | shutdown => rfl
  | sweep => rfl

/-! ### The calls of a run -/

section Run

variable {config : Config} {hashing : σ} {keySecret : Bytes} {runtime : Bool}
  {before events : List Event} {e : Event}

/-- After the first part of a run, a success of the pair that is presented next is recalled exactly
when the record says that it should be remembered. -/
theorem recalls_iff_remembers
    (hset : setUp config hasher.counting (0, hashing) keySecret runtime = .ok v)
    (hclock : StrictClock events) (hseparated : PairsSeparated keySecret events)
    (hpart : (before ++ [e]).Sublist events) (hop : e.op = .verify secret stored) :
    (v.run before).2.Recalls e.asked secret stored ↔
      (v.record before).Remembers config (secret, stored) e.asked := by
  obtain ⟨-, -, -, -, rfl, hcache⟩ := setUp_eq_ok hset
  obtain ⟨-, -, hkey, hbounds⟩ := run_frame v before
  have hstrict := hclock.sublist hpart
  have htracks : Tracks (fun pair => Presented events pair.1 pair.2) (v.run before).2
      (v.record before) e.asked := by
    refine tracks_run hcache (hstrict.sublist (List.sublist_append_left before [e])) hseparated
      (fun b hb secret stored hb' => ?_) fun b hb => ?_
    · exact ⟨b, hpart.subset (List.mem_append_left _ hb), hb'⟩
    · exact (List.pairwise_append.mp hstrict.increasing).2.2 b hb e (List.mem_singleton_self e)
  refine htracks.recalls_iff ?_ ⟨e, hpart.subset (by simp), hop⟩ ?_ (hstrict.below e (by simp))
  · rw [hkey]
    exact hseparated
  · rw [hbounds, hcache]
    rfl

/-- After every run the counter of the hasher is what the record accounts for. -/
theorem run_calls (hset : setUp config hasher.counting (0, hashing) keySecret runtime = .ok v)
    (hclock : StrictClock events) (hseparated : PairsSeparated keySecret events)
    (hpart : before.Sublist events) :
    (v.run before).2.hashing.1 = (v.record before).calls config := by
  obtain ⟨-, -, hhasher, hhashing, -, -⟩ := setUp_eq_ok hset
  induction before using List.reverseRecOn with
  | nil =>
      rw [run_nil, hhashing]
      rfl
  | append_singleton before e ih =>
      have hcost := step_calls (v := (v.run before).2) (e := e)
        ((run_frame v before).2.1.trans hhasher)
        fun _ _ hop => recalls_iff_remembers hset hclock hseparated hpart hop
      rw [run_append, record_append_singleton, Record.calls,
        ← ih ((List.sublist_append_left before [e]).trans hpart)]
      exact hcost

/-- **The exact law of the memory.** In a run from a new verifier, with a clock that grows from one
operation to the next and with keys that tell the presented pairs apart, a check is true without a
call of the hasher exactly when the pair had a success since the memory was last wiped, the latest
one is younger than the idle timeout, and fewer other pairs than there are places had a success
since. In every other case the hasher is called once if the stored token is a text, and not at all
otherwise. So the counter of the hasher is the number of tokens made and of such checks. -/
theorem hash_skipped_iff_remembered
    (hset : setUp config hasher.counting (0, hashing) keySecret runtime = .ok v)
    (hclock : StrictClock events) (hseparated : PairsSeparated keySecret events) :
    (∀ before e after secret stored, events = before ++ e :: after →
      e.op = .verify secret stored →
      ((((v.run before).2.step e).1 = .verdict true ∧
          ((v.run before).2.step e).2.hashing.1 = (v.run before).2.hashing.1) ↔
        (v.record before).Remembers config (secret, stored) e.asked) ∧
      (¬ (v.record before).Remembers config (secret, stored) e.asked →
        ((v.run before).2.step e).2.hashing.1 =
          (v.run before).2.hashing.1 + if (Utf8.decode? stored).isSome then 1 else 0)) ∧
    (v.run events).2.hashing.1 = (v.record events).calls config := by
  refine ⟨?_, run_calls hset hclock hseparated (List.Sublist.refl events)⟩
  intro before e after secret stored hevents hop
  have hpart : (before ++ [e]).Sublist events := by
    rw [hevents, show before ++ e :: after = (before ++ [e]) ++ after by simp]
    exact List.sublist_append_left (before ++ [e]) after
  have hiff := recalls_iff_remembers hset hclock hseparated hpart hop
  have hhasher : (v.run before).2.hasher = hasher.counting :=
    (run_frame v before).2.1.trans (setUp_eq_ok hset).2.2.1
  obtain ⟨asked, answered, op⟩ := e
  cases hop
  rw [← hiff, step_verify, Answer.verdict.injEq]
  exact ⟨verify_free_iff hhasher, fun h => (verify_calls_of_not_recalls hhasher h).1⟩

end Run

/-! ### One place for two tokens -/

/-- Room for one entry, for a millisecond. -/
def onePlace : Config := ⟨1, 1, 1, none⟩

/-- Two tokens that fit, in turns; one of them again too late and after a wipe; a secret that does
not fit; stored bytes that are no text; and a token made. -/
def twoTokens : List Event :=
  [⟨1, 1, .verify [1] (Utf8.encode "token")⟩, ⟨2, 2, .verify [1] (Utf8.encode "token")⟩,
    ⟨3, 3, .verify [1] (Utf8.encode "second")⟩, ⟨4, 4, .verify [1] (Utf8.encode "token")⟩,
    ⟨2000000, 2000000, .verify [1] (Utf8.encode "token")⟩, ⟨2000001, 2000001, .clearCache⟩,
    ⟨2000002, 2000002, .verify [1] (Utf8.encode "token")⟩,
    ⟨2000003, 2000003, .verify [2] (Utf8.encode "token")⟩,
    ⟨2000004, 2000004, .verify [1] [255]⟩, ⟨2000005, 2000005, .create [1]⟩,
    ⟨2000006, 2000006, .verify [1] (Utf8.encode "token")⟩]

theorem twoTokens_separated : PairsSeparated [7] twoTokens :=
  pairsSeparated_of_nodup (by decide +kernel)

/-- The second check and the last one are free, and one has no text to hash; so there are six
hashed checks and the token made. -/
theorem calls_of_twoTokens :
    ∃ v, setUp onePlace (acceptOnly [1]).counting (0, ()) [7] false = .ok v ∧
      StrictClock twoTokens ∧ PairsSeparated [7] twoTokens ∧
      (((v.run (twoTokens.take 1)).2.step ⟨2, 2, .verify [1] (Utf8.encode "token")⟩).1 =
          .verdict true ∧
        ((v.run (twoTokens.take 1)).2.step ⟨2, 2, .verify [1] (Utf8.encode "token")⟩).2.hashing.1 =
          (v.run (twoTokens.take 1)).2.hashing.1) ∧
      (v.run twoTokens).2.hashing.1 = 7 := by
  have hset : setUp onePlace (acceptOnly [1]).counting (0, ()) [7] false =
      .ok ⟨onePlace, (acceptOnly [1]).counting, (0, ()), [7], .empty onePlace.bounds, none⟩ := rfl
  have hclock : StrictClock twoTokens := ⟨by decide, by decide, by decide⟩
  obtain ⟨hlaw, hcalls⟩ := hash_skipped_iff_remembered hset hclock twoTokens_separated
  refine ⟨_, hset, hclock, twoTokens_separated, ?_, ?_⟩
  · refine (hlaw (twoTokens.take 1) _ (twoTokens.drop 2) _ _ rfl rfl).1.mpr ?_
    decide +kernel
  · rw [hcalls]
    decide +kernel

end AccessControl.Verifier
