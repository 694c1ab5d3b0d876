import Mathlib.Data.Finset.Card
import Mathlib.Data.Finset.Dedup
import AccessControl.Proofs.Verifier.Run

/-!
What a run leaves on record, and what a verifier should remember of it.

A record lists operations with their answers, the latest first. `Remembers` says, in terms of the
record alone, which pairs of secret and stored token are to be answered without the hash: the pair
had a success since the memory was last wiped, the latest of them is not too old, and not too many
other pairs had a success since. `latest` is the same as a list: the latest success of each pair,
the last one first.

* `mem_take_latest_iff`: a success is among the first of that list exactly when the pairs with
  later successes are few.
* `remembers_iff`: `Remembers` in terms of the list.
-/

namespace AccessControl.Verifier

/-- A check that came out true. -/
structure Success where
  time : Nat
  pair : Bytes × Bytes
  deriving DecidableEq

/-- The success in an operation with its answer, if it is one. -/
def success? : Event × Answer → Option Success
  | (⟨asked, _, .verify secret stored⟩, .verdict true) => some ⟨asked, (secret, stored)⟩
  | _ => none

/-- Whether an operation wipes the memory. -/
def Op.wipes : Op → Bool
  | .clearCache | .shutdown => true
  | _ => false

/-- Operations with their answers, the latest first. -/
abbrev Record := List (Event × Answer)

/-- The record of a run. -/
def record {σ : Type} (v : Verifier σ) (events : List Event) : Record :=
  (events.zip (v.run events).1).reverse

theorem record_append_singleton {σ : Type} (v : Verifier σ) (events : List Event) (e : Event) :
    v.record (events ++ [e]) = (e, ((v.run events).2.step e).1) :: v.record events := by
  rw [record, record, run_append, List.zip_append (length_run v events).symm,
    List.reverse_append]
  rfl

namespace Record

/-- The record since the memory was last wiped. -/
def sinceWipe (past : Record) : Record := past.takeWhile fun entry => !entry.1.op.wipes

/-- The successes on record, the latest first. -/
def successes (past : Record) : List Success := past.filterMap success?

/-- When the pair last had a success, if it had one since the memory was last wiped. -/
def lastSuccess? (past : Record) (pair : Bytes × Bytes) : Option Nat :=
  (past.sinceWipe.successes.find? fun s => s.pair = pair).map Success.time

/-- The other pairs that had a success strictly between two times. -/
def rivals (past : Record) (pair : Bytes × Bytes) (since now : Nat) : Finset (Bytes × Bytes) :=
  ((past.successes.filter fun s => since < s.time ∧ s.time < now ∧ s.pair ≠ pair).map
    Success.pair).toFinset

/-- The pair had a success since the memory was last wiped; the latest one is not older than the
idle timeout; and fewer other pairs had one after it than there are places. -/
def Remembers (past : Record) (config : Config) (pair : Bytes × Bytes) (now : Nat) : Prop :=
  ∃ since, past.lastSuccess? pair = some since ∧
    now - since < config.bounds.idleTimeout.nanos ∧
    (past.rivals pair since now).card < config.maxEntries.toNat

instance (past : Record) (config : Config) (pair : Bytes × Bytes) (now : Nat) :
    Decidable (past.Remembers config pair now) :=
  match h : past.lastSuccess? pair with
  | none => isFalse (by simp [Remembers, h])
  | some since => decidable_of_iff (now - since < config.bounds.idleTimeout.nanos ∧
      (past.rivals pair since now).card < config.maxEntries.toNat) (by simp [Remembers, h])

/-- The calls of the hasher that an operation costs after a record: making a token costs one, and so
does the check of a stored token that is a text and is not remembered. -/
def cost (past : Record) (config : Config) (e : Event) : Nat :=
  match e.op with
  | .create _ => 1
  | .verify secret stored =>
    if past.Remembers config (secret, stored) e.asked then 0
    else if (Utf8.decode? stored).isSome then 1 else 0
  | _ => 0

/-- The calls of the hasher in a whole record. -/
def calls (config : Config) : Record → Nat
  | [] => 0
  | (e, _) :: earlier => calls config earlier + cost earlier config e

/-- Each operation on record was asked for later than those before it, and before a time. -/
def Timed (past : Record) (now : Nat) : Prop :=
  past.Pairwise (fun later earlier => earlier.1.asked < later.1.asked) ∧
    ∀ entry ∈ past, entry.1.asked < now

end Record

/-! ### The latest success of each pair -/

/-- The latest success of each pair, out of successes of which the last one is in front. -/
def latest : List Success → List Success
  | [] => []
  | s :: earlier => s :: (latest earlier).filter fun other => other.pair ≠ s.pair

/-- Each success was later than all behind it. -/
def ByTime (successes : List Success) : Prop :=
  successes.Pairwise fun later earlier => earlier.time < later.time

variable {successes : List Success} {s : Success}

theorem latest_sublist (successes : List Success) : (latest successes).Sublist successes := by
  induction successes with
  | nil => exact List.Sublist.refl _
  | cons s earlier ih => exact (List.filter_sublist.trans ih).cons_cons s

/-- The latest success of a pair is the first one found. -/
theorem mem_latest_iff :
    s ∈ latest successes ↔ successes.find? (fun other => other.pair = s.pair) = some s := by
  induction successes with
  | nil => simp [latest]
  | cons first earlier ih =>
      rw [latest, List.mem_cons, List.mem_filter, ih]
      by_cases hpair : first.pair = s.pair
      · simp [hpair, eq_comm]
      · have hne : s ≠ first := fun hsame => hpair (congrArg Success.pair hsame.symm)
        simp [hpair, hne, Ne.symm hpair]

theorem nodup_latest_pairs (successes : List Success) :
    ((latest successes).map Success.pair).Nodup := by
  induction successes with
  | nil => exact List.nodup_nil
  | cons s earlier ih =>
      refine List.nodup_cons.mpr ⟨?_, ih.sublist (List.filter_sublist.map _)⟩
      intro hmem
      obtain ⟨other, hother, hsame⟩ := List.mem_map.mp hmem
      exact absurd hsame (by simpa using (List.mem_filter.mp hother).2)

/-- The first success found for a pair is the latest one. -/
theorem time_le_of_find? {pair : Bytes × Bytes} (h : ByTime successes)
    (hfound : successes.find? (fun other => other.pair = pair) = some s) {other : Success}
    (hother : other ∈ successes) (hpair : other.pair = pair) : other.time ≤ s.time := by
  obtain ⟨-, front, back, rfl, hfront⟩ := List.find?_eq_some_iff_append.mp hfound
  rcases List.mem_append.mp hother with hmem | hmem
  · exact absurd hpair (by simpa using hfront other hmem)
  · rcases List.mem_cons.mp hmem with rfl | hmem
    · exact Nat.le_refl _
    · have hback := (List.pairwise_append.mp h).2.1
      exact Nat.le_of_lt ((List.pairwise_cons.mp hback).1 other hmem)

/-- In a list by time a success has as many in front of it as were later. -/
theorem mem_take_iff_of_byTime (h : ByTime successes) (hs : s ∈ successes) (n : Nat) :
    s ∈ successes.take n ↔ (successes.filter fun other => s.time < other.time).length < n := by
  induction successes generalizing n with
  | nil => cases hs
  | cons first earlier ih =>
      obtain ⟨hlater, hearlier⟩ := List.pairwise_cons.mp h
      cases n with
      | zero => simp
      | succ n =>
          rw [List.take_succ_cons, List.mem_cons]
          rcases List.mem_cons.mp hs with rfl | hs
          · have hnil : (earlier.filter fun other => s.time < other.time) = [] := by
              refine List.filter_eq_nil_iff.mpr fun other hother => ?_
              have := hlater other hother
              simp only [decide_eq_true_eq]
              omega
            simp [hnil]
          · have hlt := hlater s hs
            have hne : s ≠ first := by
              rintro rfl
              exact Nat.lt_irrefl _ hlt
            simp [hne, hlt, ih hearlier hs n]

/-- The pairs with a success later than the latest one of a pair. -/
def laterPairs (successes : List Success) (s : Success) : Finset (Bytes × Bytes) :=
  ((successes.filter fun other => s.time < other.time ∧ other.pair ≠ s.pair).map
    Success.pair).toFinset

/-- A success is among the first of the latest ones exactly when few pairs had a later one. -/
theorem mem_take_latest_iff (h : ByTime successes) (hs : s ∈ latest successes) (n : Nat) :
    s ∈ (latest successes).take n ↔ (laterPairs successes s).card < n := by
  have hfound := mem_latest_iff.mp hs
  have hpairs : (laterPairs successes s) =
      (((latest successes).filter fun other => s.time < other.time).map
        Success.pair).toFinset := by
    ext pair
    simp only [laterPairs, List.mem_toFinset, List.mem_map, List.mem_filter, decide_eq_true_eq]
    constructor
    · rintro ⟨other, ⟨hother, hlt, hne⟩, rfl⟩
      obtain ⟨last, hlast⟩ : ∃ last,
          successes.find? (fun x => x.pair = other.pair) = some last :=
        Option.isSome_iff_exists.mp (List.find?_isSome.mpr ⟨other, hother, by simp⟩)
      have hpair : last.pair = other.pair := by simpa using List.find?_some hlast
      have hle := time_le_of_find? h hlast hother rfl
      exact ⟨last, ⟨mem_latest_iff.mpr (hpair ▸ hlast), Nat.lt_of_lt_of_le hlt hle⟩, hpair⟩
    · rintro ⟨other, ⟨hother, hlt⟩, rfl⟩
      refine ⟨other, ⟨(latest_sublist successes).subset hother, hlt, fun hsame => ?_⟩, rfl⟩
      have hle := time_le_of_find? h hfound ((latest_sublist successes).subset hother) hsame
      exact Nat.lt_irrefl _ (Nat.lt_of_lt_of_le hlt hle)
  have hnodup : (((latest successes).filter fun other => s.time < other.time).map
      Success.pair).Nodup :=
    (nodup_latest_pairs successes).sublist (List.filter_sublist.map _)
  rw [mem_take_iff_of_byTime (h.sublist (latest_sublist successes)) hs, hpairs,
    List.toFinset_card_of_nodup hnodup, List.length_map]

/-! ### What is remembered, as a list -/

namespace Record

variable {past : Record} {now : Nat}

/-- Whatever is a success happened when it was asked for. -/
theorem time_of_success? {entry : Event × Answer} (h : success? entry = some s) :
    s.time = entry.1.asked := by
  unfold success? at h
  split at h
  · cases h
    rfl
  · cases h

theorem Timed.byTime (h : past.Timed now) : ByTime past.successes := by
  refine List.Pairwise.filterMap success? ?_ h.1
  intro later earlier hlt s hs t ht
  rw [time_of_success? hs, time_of_success? ht]
  exact hlt

theorem Timed.lt_of_mem (h : past.Timed now) (hs : s ∈ past.successes) : s.time < now := by
  obtain ⟨entry, hentry, hsome⟩ := List.mem_filterMap.mp hs
  rw [time_of_success? hsome]
  exact h.2 entry hentry

theorem Timed.sinceWipe (h : past.Timed now) : past.sinceWipe.Timed now :=
  ⟨h.1.sublist (List.takeWhile_sublist _), fun entry hentry =>
    h.2 entry ((List.takeWhile_sublist _).subset hentry)⟩

/-- What was done before the memory was wiped is earlier than everything since. -/
theorem rivals_eq (h : past.Timed now) (hs : s ∈ past.sinceWipe.successes) :
    past.rivals s.pair s.time now = laterPairs past.sinceWipe.successes s := by
  have hsplit : past.successes = past.sinceWipe.successes ++
      Record.successes (past.dropWhile fun entry => !entry.1.op.wipes) := by
    rw [Record.successes, Record.successes, Record.successes, sinceWipe, ← List.filterMap_append,
      List.takeWhile_append_dropWhile]
  have hbyTime := h.byTime
  rw [hsplit] at hbyTime
  unfold rivals laterPairs
  rw [hsplit, List.filter_append]
  have hold : (Record.successes (past.dropWhile fun entry => !entry.1.op.wipes)).filter
      (fun other => s.time < other.time ∧ other.time < now ∧ other.pair ≠ s.pair) = [] := by
    refine List.filter_eq_nil_iff.mpr fun other hother => ?_
    have := (List.pairwise_append.mp hbyTime).2.2 s hs other hother
    simp only [decide_eq_true_eq]
    omega
  rw [hold, List.append_nil]
  congr 2
  refine List.filter_congr fun other hother => ?_
  have hlt := h.sinceWipe.lt_of_mem hother
  simp [hlt]

/-- A pair is remembered exactly when its latest success is not too old and among the first. -/
theorem remembers_iff {config : Config} {pair : Bytes × Bytes} (h : past.Timed now) :
    past.Remembers config pair now ↔
      ∃ s ∈ (latest past.sinceWipe.successes).take config.maxEntries.toNat,
        s.pair = pair ∧ now - s.time < config.bounds.idleTimeout.nanos := by
  constructor
  · rintro ⟨since, hlast, hidle, hrivals⟩
    obtain ⟨s, hfound, rfl⟩ := Option.map_eq_some_iff.mp hlast
    have hpair : s.pair = pair := by simpa using List.find?_some hfound
    subst hpair
    rw [rivals_eq h (List.mem_of_find?_eq_some hfound)] at hrivals
    exact ⟨s, (mem_take_latest_iff h.sinceWipe.byTime (mem_latest_iff.mpr hfound) _).mpr hrivals,
      rfl, hidle⟩
  · rintro ⟨s, hs, rfl, hidle⟩
    have hmem := List.mem_of_mem_take hs
    have hfound := mem_latest_iff.mp hmem
    refine ⟨s.time, by rw [lastSuccess?, hfound]; rfl, hidle, ?_⟩
    rw [rivals_eq h (List.mem_of_find?_eq_some hfound)]
    exact (mem_take_latest_iff h.sinceWipe.byTime hmem _).mp hs

end Record

end AccessControl.Verifier
