import Mathlib.Data.List.Chain
import AccessControl.Proofs.Cache.Recency
import AccessControl.Proofs.Verifier.Chronicle
import AccessControl.Proofs.Verifier.Record

/-!
Every success goes back to the hash.

A hasher may change its mind or fail, so what it said once says nothing about what it would say
now. What can be said of a success is where it comes from. `Stands` tells, over what a verifier
did, that a success of a pair stands: the hash confirmed it, later successes of the pair renewed it
before it was idle for too long, and nothing wiped the memory. Each entry of the cache lies under
the key of a pair whose success stands since the entry was last touched (`Backed`); a read under a
key that two pairs share touches the entry of the other pair, but then removes it.

Main statement: `success_confirmed_or_renewed`.
-/

namespace AccessControl.Verifier

variable {σ : Type}

/-! ### Successes that stand -/

/-- A check of the pair that came out true. -/
def Deed.Succeeds (d : Deed) (secret stored : Bytes) : Prop :=
  d.event.op = .verify secret stored ∧ d.answer = .verdict true

/-- The hasher was called for the pair, and gave the stored token back. -/
def Deed.Confirms (d : Deed) (secret stored : Bytes) : Prop :=
  ∃ text, Utf8.encode text = stored ∧ d.calls = [⟨secret, some text, .ok text⟩]

/-- The time from which a success counts: when it was asked for, or, if the hasher had to be called,
when the hasher was done. -/
def Deed.settled (d : Deed) : Nat :=
  if d.calls.isEmpty then d.event.asked else d.event.answered

/-- One check was asked for after another had settled, and before the idle time was over. -/
def Soon (idle : Nat) (earlier later : Deed) : Prop :=
  earlier.settled ≤ later.event.asked ∧ later.event.asked - earlier.settled < idle

/-- After what was done, a success of the pair stands, and has counted last from some time on. -/
inductive Stands (idle : Nat) (secret stored : Bytes) : List Deed → Nat → Prop
  /-- The hash has just confirmed it. -/
  | confirmed {past : List Deed} {d : Deed} (hsuccess : d.Succeeds secret stored)
      (hconfirms : d.Confirms secret stored) : Stands idle secret stored (past ++ [d]) d.settled
  /-- A success that came soon enough has just renewed it. -/
  | renewed {past : List Deed} {d : Deed} {time : Nat} (h : Stands idle secret stored past time)
      (hsuccess : d.Succeeds secret stored) (hlater : time ≤ d.event.asked)
      (hsoon : d.event.asked - time < idle) : Stands idle secret stored (past ++ [d]) d.settled
  /-- Something else was done that did not wipe the memory. -/
  | kept {past : List Deed} {d : Deed} {time : Nat} (h : Stands idle secret stored past time)
      (hwipes : d.event.op.wipes = false) : Stands idle secret stored (past ++ [d]) time

/-- Successes of a pair, of which the first was confirmed by the hash. Nothing was wiped since. -/
structure Lineage (secret stored : Bytes) (past : List Deed) (first : Deed)
    (renewals : List Deed) : Prop where
  success : first.Succeeds secret stored
  confirmed : first.Confirms secret stored
  renewed : ∀ r ∈ renewals, r.Succeeds secret stored
  sinceWipe : ∃ earlier since, past = earlier ++ first :: since ∧ renewals.Sublist since ∧
    ∀ other ∈ since, other.event.op.wipes = false

variable {idle now time : Nat} {secret stored : Bytes} {past renewals : List Deed} {d first : Deed}

theorem Deed.Succeeds.wipes_eq_false (h : d.Succeeds secret stored) :
    d.event.op.wipes = false := by
  rw [h.1]
  rfl

/-- What is done without a wipe leaves a lineage as it is. -/
theorem Lineage.keep (h : Lineage secret stored past first renewals)
    (hwipes : d.event.op.wipes = false) : Lineage secret stored (past ++ [d]) first renewals := by
  obtain ⟨earlier, since, rfl, hsub, hsince⟩ := h.sinceWipe
  refine ⟨h.success, h.confirmed, h.renewed, earlier, since ++ [d], by simp,
    hsub.trans (List.sublist_append_left since [d]), ?_⟩
  intro other hother
  rcases List.mem_append.mp hother with hother | hother
  · exact hsince other hother
  · exact List.mem_singleton.mp hother ▸ hwipes

/-- A success of the pair goes on with a lineage. -/
theorem Lineage.renew (h : Lineage secret stored past first renewals)
    (hsuccess : d.Succeeds secret stored) :
    Lineage secret stored (past ++ [d]) first (renewals ++ [d]) := by
  obtain ⟨earlier, since, rfl, hsub, hsince⟩ := h.sinceWipe
  refine ⟨h.success, h.confirmed, ?_, earlier, since ++ [d], by simp,
    hsub.append (List.Sublist.refl [d]), ?_⟩
  · intro r hr
    rcases List.mem_append.mp hr with hr | hr
    · exact h.renewed r hr
    · exact List.mem_singleton.mp hr ▸ hsuccess
  · intro other hother
    rcases List.mem_append.mp hother with hother | hother
    · exact hsince other hother
    · exact List.mem_singleton.mp hother ▸ hsuccess.wipes_eq_false

/-- One more deed, soon after the last of a chain. -/
theorem isChain_soon_append {chain : List Deed} {last : Deed} (h : chain.IsChain (Soon idle))
    (hlast : chain.getLast? = some last) (hsoon : Soon idle last d) :
    (chain ++ [d]).IsChain (Soon idle) := by
  refine List.isChain_append.mpr ⟨h, List.IsChain.singleton d, ?_⟩
  intro a ha b hb
  rw [hlast, Option.mem_some_iff] at ha
  rw [List.head?_cons, Option.mem_some_iff] at hb
  subst ha hb
  exact hsoon

/-- A success that stands has a lineage, each of which came soon after the one before, and counts
from the last of it. -/
theorem Stands.exists_lineage (h : Stands idle secret stored past time) :
    ∃ first renewals, Lineage secret stored past first renewals ∧
      (first :: renewals).IsChain (Soon idle) ∧
      ∃ last, (first :: renewals).getLast? = some last ∧ last.settled = time := by
  induction h with
  | @confirmed past d hsuccess hconfirms =>
      exact ⟨d, [], ⟨hsuccess, hconfirms, fun r hr => absurd hr List.not_mem_nil,
        past, [], rfl, List.Sublist.refl [], fun r hr => absurd hr List.not_mem_nil⟩,
        List.IsChain.singleton d, d, rfl, rfl⟩
  | @renewed past d time h hsuccess hlater hsoon ih =>
      obtain ⟨first, renewals, hlineage, hchain, last, hlast, rfl⟩ := ih
      exact ⟨first, renewals ++ [d], hlineage.renew hsuccess,
        isChain_soon_append hchain hlast ⟨hlater, hsoon⟩, d,
        List.getLast?_concat (l := first :: renewals), rfl⟩
  | @kept past d time h hwipes ih =>
      obtain ⟨first, renewals, hlineage, hrest⟩ := ih
      exact ⟨first, renewals, hlineage.keep hwipes, hrest⟩

/-! ### Entries that are backed -/

/-- Every entry was touched no later than a time, and lies under the key of a pair of a kind whose
success stands since then, with the stored token as its value. -/
def Backed (idle : Nat) (Q : Bytes → Bytes → Prop) (v : Verifier (List HashCall × σ))
    (past : List Deed) (now : Nat) : Prop :=
  ∀ e ∈ v.cache.entries, e.touched ≤ now ∧ ∃ secret, e.key = v.key secret (Utf8.encode e.value) ∧
    Q secret (Utf8.encode e.value) ∧ Stands idle secret (Utf8.encode e.value) past e.touched

variable {Q : Bytes → Bytes → Prop} {v w : Verifier (List HashCall × σ)} {later : Nat}

/-- What is done without a wipe and makes no entry leaves the entries backed. -/
theorem Backed.keep (h : Backed idle Q v past now) (hkey : w.keySecret = v.keySecret)
    (hsub : ∀ e ∈ w.cache.entries, e ∈ v.cache.entries) (hwipes : d.event.op.wipes = false)
    (hlater : now ≤ later) : Backed idle Q w (past ++ [d]) later := by
  intro e he
  obtain ⟨htouched, secret, hsecret, hQ, hstands⟩ := h e (hsub e he)
  refine ⟨Nat.le_trans htouched hlater, secret, ?_, hQ, hstands.kept hwipes⟩
  rw [hsecret, key, key, hkey]

theorem Backed.mono (h : Backed idle Q v past now) (hlater : now ≤ later) :
    Backed idle Q v past later :=
  fun e he => ⟨Nat.le_trans (h e he).1 hlater, (h e he).2⟩

/-- What leaves no entry leaves the entries backed. -/
theorem Backed.of_empty (h : w.cache.entries = []) : Backed idle Q w past now := by
  intro e he
  rw [h] at he
  exact absurd he List.not_mem_nil

section Check

variable {hasher : Hasher σ} {asked answered : Nat}

/-- What is recalled for a pair is backed for that very pair, as long as its secret is separated
from others by its key, and has not been idle for too long. -/
theorem Backed.of_recalls (h : Backed idle Q v past now)
    (hidle : v.cache.bounds.idleTimeout.nanos = idle)
    (hseparated : ∀ other, Q other stored → v.key other stored = v.key secret stored →
      other = secret)
    (hbelow : asked < Clock.limit) (hrecalls : v.Recalls asked secret stored) :
    ∃ e, v.cache.find? (v.key secret stored) = some e ∧ Utf8.encode e.value = stored ∧
      e.touched ≤ now ∧ asked - e.touched < idle ∧ Q secret stored ∧
      Stands idle secret stored past e.touched := by
  obtain ⟨e, hfound, hlive, htext⟩ := hrecalls
  obtain ⟨hmem, hkey⟩ := Cache.find?_eq_some_iff.mp hfound
  have hstored : Utf8.encode e.value = stored := Utf8.decode?_eq_some_iff.mp htext
  obtain ⟨htouched, other, hother, hQ, hstands⟩ := h e hmem
  rw [hstored] at hother hQ hstands
  obtain rfl := hseparated other hQ (hother.symm.trans hkey)
  refine ⟨e, hfound, hstored, htouched, ?_, hQ, hstands⟩
  rw [← hidle]
  by_contra hidleFor
  rw [(Cache.isExpired_iff hbelow e).mpr (Nat.not_lt.mp hidleFor)] at hlive
  cases hlive

/-- A recalled success renews its entry. -/
theorem Backed.recall (h : Backed idle Q v past now)
    (hidle : v.cache.bounds.idleTimeout.nanos = idle)
    (hseparated : ∀ other, Q other stored → v.key other stored = v.key secret stored →
      other = secret)
    (hfrom : now ≤ asked) (hforward : asked ≤ answered) (hbelow : answered < Clock.limit)
    (hrecalls : v.Recalls asked secret stored) :
    Backed idle Q (v.step ⟨asked, answered, .verify secret stored⟩).2
      (past ++ [v.deed ⟨asked, answered, .verify secret stored⟩]) answered := by
  have hlimit : asked < Clock.limit := Nat.lt_of_le_of_lt hforward hbelow
  obtain ⟨recalled, hfound, hstored, htouched, hsoon, hQ, hstands⟩ :=
    h.of_recalls hidle hseparated hlimit hrecalls
  have hsuccess : (v.deed ⟨asked, answered, .verify secret stored⟩).Succeeds secret stored := by
    refine ⟨rfl, ?_⟩
    rw [deed, step_verify, verify_of_recalls hrecalls]
  have hsettled : (v.deed ⟨asked, answered, .verify secret stored⟩).settled = asked := by
    rw [Deed.settled, calls_of_recalls answered hrecalls]
    rfl
  have hrenewed := hstands.renewed hsuccess (Nat.le_trans htouched hfrom) hsoon
  rw [hsettled] at hrenewed
  rw [step_verify, verify_of_recalls hrecalls]
  intro e he
  rcases Cache.mem_touch_cases he with ⟨hold, -⟩ | ⟨old, hold, hkey, rfl⟩
  · obtain ⟨htouchedOld, secretOld, hrest⟩ := h e hold
    exact ⟨by omega, secretOld, hrest.1, hrest.2.1, hrest.2.2.kept rfl⟩
  · rw [Cache.find?_eq_some_iff.mpr ⟨hold, hkey⟩] at hfound
    obtain rfl := Option.some.inj hfound
    have htime : max old.touched (Clock.reading asked) = asked := by
      unfold Clock.reading
      omega
    subst hstored
    rw [htime]
    exact ⟨hforward, secret, hkey, hQ, hrenewed⟩

/-- A success that is not recalled is one that the hash confirms, and counts from its answer. -/
theorem confirms_of_not_recalls (answered : Nat) (hhasher : v.hasher = hasher.logging)
    (hrecalls : ¬ v.Recalls asked secret stored)
    (htrue : (v.verify asked answered secret stored).1 = true) :
    (v.deed ⟨asked, answered, .verify secret stored⟩).Succeeds secret stored ∧
      (v.deed ⟨asked, answered, .verify secret stored⟩).Confirms secret stored ∧
      (v.deed ⟨asked, answered, .verify secret stored⟩).settled = answered := by
  obtain ⟨text, htext, hcalls⟩ := calls_of_success answered hhasher hrecalls htrue
  refine ⟨⟨rfl, congrArg Answer.verdict htrue⟩, ⟨text, htext, hcalls⟩, ?_⟩
  rw [Deed.settled, hcalls]
  rfl

/-- A check that is not answered from the memory leaves nothing there but what was backed before and
what the hash has just confirmed. -/
theorem Backed.hash (h : Backed idle Q v past now) (hhasher : v.hasher = hasher.logging)
    (hQ : Q secret stored) (hfrom : now ≤ answered) (hbelow : answered < Clock.limit)
    (hrecalls : ¬ v.Recalls asked secret stored) :
    Backed idle Q (v.step ⟨asked, answered, .verify secret stored⟩).2
      (past ++ [v.deed ⟨asked, answered, .verify secret stored⟩]) answered := by
  have hsub : ∀ e ∈ (v.cache.erase (v.key secret stored)).entries, e ∈ v.cache.entries :=
    fun e he => (Cache.mem_erase.mp he).1
  have hverify : v.verify asked answered secret stored = check _ answered secret stored :=
    verify_of_not_recalls hrecalls
  rcases check_cases { v with cache := v.cache.erase (v.key secret stored) } answered secret
    stored with ⟨-, hcheck⟩ | ⟨text, htext, ⟨-, hcheck⟩ | ⟨-, hcheck⟩⟩
  · rw [step_verify, hverify, hcheck]
    exact h.keep rfl hsub rfl hfrom
  · obtain ⟨hsuccess, hconfirms, hsettled⟩ :=
      confirms_of_not_recalls answered hhasher hrecalls (by rw [hverify, hcheck])
    have hstands := @Stands.confirmed idle secret stored past _ hsuccess hconfirms
    rw [hsettled] at hstands
    have hreading : Clock.reading answered = answered := Nat.min_eq_left (Nat.le_of_lt hbelow)
    rw [step_verify, hverify, hcheck]
    intro e he
    rcases Cache.mem_insert he with rfl | hold
    · rw [hreading, Utf8.decode?_eq_some_iff.mp htext]
      exact ⟨Nat.le_refl answered, secret, rfl, hQ, hstands⟩
    · obtain ⟨htouched, secret', hsecret', hQ', hstands'⟩ := h e (hsub e hold)
      exact ⟨Nat.le_trans htouched hfrom, secret', hsecret', hQ', hstands'.kept rfl⟩
  · rw [step_verify, hverify, hcheck]
    exact h.keep rfl hsub rfl hfrom

end Check

/-- Every operation leaves the entries backed. -/
theorem Backed.step {hasher : Hasher σ} {e : Event} (h : Backed idle Q v past now)
    (hhasher : v.hasher = hasher.logging) (hidle : v.cache.bounds.idleTimeout.nanos = idle)
    (hseparated : ∀ secret₁ secret₂ stored, Q secret₁ stored → Q secret₂ stored →
      v.key secret₁ stored = v.key secret₂ stored → secret₁ = secret₂)
    (hQ : ∀ secret stored, e.op = .verify secret stored → Q secret stored)
    (hfrom : now ≤ e.asked) (hforward : e.asked ≤ e.answered) (hbelow : e.answered < Clock.limit) :
    Backed idle Q (v.step e).2 (past ++ [v.deed e]) e.answered := by
  have hlater : now ≤ e.answered := Nat.le_trans hfrom hforward
  obtain ⟨asked, answered, op⟩ := e
  cases op with
  | verify secret stored =>
      have hpair := hQ secret stored rfl
      by_cases hrecalls : v.Recalls asked secret stored
      · exact h.recall hidle (fun other hother hsame => hseparated other secret stored hother hpair
          hsame) hfrom hforward hbelow hrecalls
      · exact h.hash hhasher hpair hlater hbelow hrecalls
  | create secret =>
      rw [step_create, createCredential_snd]
      exact h.keep rfl (fun _ he => he) rfl hlater
  | cacheSize => exact h.keep rfl (fun _ he => Cache.mem_of_mem_sweep he) rfl hlater
  | clearCache => exact Backed.of_empty rfl
  | shutdown => exact Backed.of_empty rfl
  | sweep => exact h.keep rfl (fun _ he => Cache.mem_of_mem_sweep he) rfl hlater

/-! ### Runs -/

section Run

variable {config : Config} {hasher : Hasher σ} {hashing : σ} {keySecret : Bytes} {runtime : Bool}
  {before events : List Event}

/-- After every part of a run the entries are backed by what was done. -/
theorem backed_run (hset : setUp config hasher.logging ([], hashing) keySecret runtime = .ok v)
    (hclock : ForwardClock events) (hseparated : SecretsSeparated keySecret events)
    (hpart : before.Sublist events) (hnow : ∀ e ∈ before, e.answered ≤ now) :
    Backed config.bounds.idleTimeout.nanos (Presented events) (v.run before).2
      (v.chronicle before) now := by
  obtain ⟨-, -, hhasher, -, rfl, hcache⟩ := setUp_eq_ok hset
  induction before using List.reverseRecOn generalizing now with
  | nil =>
      refine Backed.of_empty ?_
      rw [run_nil, hcache]
      rfl
  | append_singleton before e ih =>
      have hbefore : before.Sublist events :=
        (List.sublist_append_left before [e]).trans hpart
      have he : e ∈ events := hpart.subset (by simp)
      obtain ⟨-, hhasher', hkey', hbounds'⟩ := run_frame v before
      have horder : ∀ b ∈ before, b.answered ≤ e.asked := fun b hb =>
        (List.pairwise_append.mp (hclock.sublist hpart).ordered).2.2 b hb e
          (List.mem_singleton_self e)
      rw [run_append, chronicle_append_singleton]
      refine Backed.mono (Backed.step (ih hbefore horder) (hhasher'.trans hhasher) ?_ ?_ ?_
        (Nat.le_refl e.asked) (hclock.forward e he) (hclock.below e he)) (hnow e (by simp))
      · rw [hbounds', hcache]
        rfl
      · intro secret₁ secret₂ stored h₁ h₂ hsame
        rw [key, key, hkey'] at hsame
        exact hseparated secret₁ secret₂ stored h₁ h₂ hsame
      · intro secret stored hop
        exact ⟨e, he, hop⟩

/-- What a success after any part of a run rests on. -/
theorem rests_of_succeeds
    (hset : setUp config hasher.logging ([], hashing) keySecret runtime = .ok v)
    (hclock : ForwardClock events) (hseparated : SecretsSeparated keySecret events) {e : Event}
    (hpart : (before ++ [e]).Sublist events)
    (hsuccess : ((v.run before).2.deed e).Succeeds secret stored) :
    ((v.run before).2.deed e).Confirms secret stored ∨
      ∃ first renewals, Lineage secret stored (v.chronicle before) first renewals ∧
        (first :: renewals ++ [(v.run before).2.deed e]).IsChain
          (Soon config.bounds.idleTimeout.nanos) := by
  have he : e ∈ events := hpart.subset (by simp)
  have hbefore : ∀ b ∈ before, b.answered ≤ e.asked := fun b hb =>
    (List.pairwise_append.mp (hclock.sublist hpart).ordered).2.2 b hb e (List.mem_singleton_self e)
  have hbacked := backed_run hset hclock hseparated
    ((List.sublist_append_left before [e]).trans hpart) hbefore
  obtain ⟨-, hhasher, hkey, hbounds⟩ := run_frame v before
  obtain ⟨-, -, hlogging, -, rfl, hcache⟩ := setUp_eq_ok hset
  obtain ⟨asked, answered, op⟩ := e
  obtain ⟨hop, htrue⟩ := hsuccess
  cases hop
  by_cases hrecalls : (v.run before).2.Recalls asked secret stored
  · right
    have hidle : (v.run before).2.cache.bounds.idleTimeout.nanos =
        config.bounds.idleTimeout.nanos := by
      rw [hbounds, hcache]
      rfl
    obtain ⟨entry, -, -, htouched, hsoon, -, hstands⟩ := hbacked.of_recalls hidle
      (fun other hother hsame => by
        rw [key, key, hkey] at hsame
        exact hseparated other secret stored hother ⟨_, he, rfl⟩ hsame)
      (Nat.lt_of_le_of_lt (hclock.forward _ he) (hclock.below _ he)) hrecalls
    obtain ⟨first, renewals, hlineage, hchain, last, hlast, hsettled⟩ := hstands.exists_lineage
    exact ⟨first, renewals, hlineage,
      isChain_soon_append hchain hlast ⟨hsettled ▸ htouched, hsettled ▸ hsoon⟩⟩
  · left
    have hverdict : ((v.run before).2.verify asked answered secret stored).1 = true :=
      Answer.verdict.inj htrue
    exact (confirms_of_not_recalls answered (hhasher.trans hlogging) hrecalls hverdict).2.1

/-- **Every success goes back to the hash.** Whatever the hasher does, and however often it changes
its mind, a check that is true called the hasher and was given the stored token; or it rests on an
earlier check of the same pair, since which nothing was wiped, that called the hasher and was given
the stored token, and true checks of the pair lead from that one to this one, each within the idle
time of the one before. Only secrets presented with one stored token need to be separated by their
keys. -/
theorem success_confirmed_or_renewed
    (hset : setUp config hasher.logging ([], hashing) keySecret runtime = .ok v)
    (hclock : ForwardClock events) (hseparated : SecretsSeparated keySecret events) {i : Nat}
    (hat : (v.chronicle events)[i]? = some d) (hsuccess : d.Succeeds secret stored) :
    d.Confirms secret stored ∨
      ∃ first renewals, Lineage secret stored ((v.chronicle events).take i) first renewals ∧
        (first :: renewals ++ [d]).IsChain (Soon config.bounds.idleTimeout.nanos) := by
  rw [chronicle_getElem?] at hat
  obtain ⟨e, he, rfl⟩ := Option.map_eq_some_iff.mp hat
  have hpart : (events.take i ++ [e]).Sublist events := by
    have hsub := List.take_sublist (i + 1) events
    rwa [List.take_add_one, he] at hsub
  rw [chronicle_take]
  exact rests_of_succeeds hset hclock hseparated hpart hsuccess

end Run

/-! ### A hasher that says yes once -/

/-- A hasher that gives the token back on its first call and fails ever after. -/
def yesOnce : Hasher Nat where
  crypt _ existing state :=
    (if state = 0 then .ok (existing.getD "fresh") else .error (.primitive "worn out"), state + 1)

/-- A new verifier with that hasher. -/
def believer : Verifier (List HashCall × Nat) :=
  ⟨.default, yesOnce.logging, ([], 0), [7], .empty Config.default.bounds, none⟩

/-- The right secret twice, a wrong one, the right one again, and once more after a wipe. -/
def onceConfirmed : List Event :=
  [⟨1, 2, .verify [1] (Utf8.encode "token")⟩, ⟨3, 3, .verify [1] (Utf8.encode "token")⟩,
    ⟨4, 4, .verify [2] (Utf8.encode "token")⟩, ⟨5, 5, .verify [1] (Utf8.encode "token")⟩,
    ⟨6, 6, .clearCache⟩, ⟨7, 7, .verify [1] (Utf8.encode "token")⟩]

theorem onceConfirmed_separated : SecretsSeparated [7] onceConfirmed :=
  (pairsSeparated_of_nodup (by decide +kernel)).secretsSeparated

/-- The third success of the right secret makes no call, and rests on the first one. -/
theorem lineage_of_onceConfirmed :
    setUp .default yesOnce.logging ([], 0) [7] false = .ok believer ∧
      ForwardClock onceConfirmed ∧ SecretsSeparated [7] onceConfirmed ∧
      ∃ d, (believer.chronicle onceConfirmed)[3]? = some d ∧
        d.Succeeds [1] (Utf8.encode "token") ∧ d.calls.isEmpty = true ∧ ∃ first renewals,
        Lineage [1] (Utf8.encode "token") ((believer.chronicle onceConfirmed).take 3) first
          renewals ∧
        (first :: renewals ++ [d]).IsChain (Soon Config.default.bounds.idleTimeout.nanos) := by
  have hset : setUp .default yesOnce.logging ([], 0) [7] false = .ok believer := rfl
  have hclock : ForwardClock onceConfirmed := by decide
  obtain ⟨htrue, hfree⟩ :
      ((believer.run (onceConfirmed.take 3)).2.verify 5 5 [1] (Utf8.encode "token")).1 = true ∧
        ((believer.run (onceConfirmed.take 3)).2.deed
          ⟨5, 5, .verify [1] (Utf8.encode "token")⟩).calls.isEmpty = true := by
    decide +kernel
  have hat := believer.chronicle_getElem? onceConfirmed 3
  have hsuccess : ((believer.run (onceConfirmed.take 3)).2.deed
      ⟨5, 5, .verify [1] (Utf8.encode "token")⟩).Succeeds [1] (Utf8.encode "token") :=
    ⟨rfl, congrArg Answer.verdict htrue⟩
  refine ⟨hset, hclock, onceConfirmed_separated, _, hat, hsuccess, hfree, ?_⟩
  rcases success_confirmed_or_renewed hset hclock onceConfirmed_separated hat hsuccess with
    ⟨text, -, hcalls⟩ | hlineage
  · rw [hcalls] at hfree
    cases hfree
  · exact hlineage

end AccessControl.Verifier
