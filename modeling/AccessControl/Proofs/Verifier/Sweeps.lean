import AccessControl.Proofs.Cache.Sweeps
import AccessControl.Proofs.Verifier.Chronicle

/-!
Sweeps do not show in what a verifier does.

Two verifiers are alike if they hash alike, derive the same keys and have alike caches (`Alike`).
Whatever a client asks of both, they do the same and stay alike (`Alike.step`, `Alike.deed_eq`); a
sweep or a count of one of them keeps them alike (`Alike.upkeep`). What a sweeper does between two
times is a run of sweeps (`advance_eq_run`), so this holds for sweepers of every period.

Main statement: `sweeps_unseen`. Runs of a cache with the same operations on keys, and runs of a
verifier with the same calls of clients, read, answer and hash the same, wherever the caches are
swept between.
-/

namespace AccessControl.Verifier

variable {σ : Type}

/-! ### Verifiers that are alike -/

/-- Two verifiers with the same hasher in the same state, the same keys, and caches that are alike,
with all entries touched before a time. -/
structure Alike (v w : Verifier σ) (last since : Nat) : Prop where
  hasher : v.hasher = w.hasher
  hashing : v.hashing = w.hashing
  keySecret : v.keySecret = w.keySecret
  cache : Cache.Alike v.cache w.cache last since

variable {v w : Verifier σ} {last since now asked answered : Nat} {secret stored : Bytes}

theorem Alike.key_eq (h : v.Alike w last since) (secret stored : Bytes) :
    v.key secret stored = w.key secret stored := by
  rw [key, key, h.keySecret]

theorem Alike.symm (h : v.Alike w last since) : w.Alike v last since :=
  ⟨h.hasher.symm, h.hashing.symm, h.keySecret.symm, h.cache.symm⟩

theorem Alike.mono {last' since' : Nat} (h : v.Alike w last since) (hlast : last ≤ last')
    (hsince : since ≤ since') : v.Alike w last' since' :=
  ⟨h.hasher, h.hashing, h.keySecret, h.cache.mono hlast hsince⟩

/-- Both recall the same successes. -/
theorem Alike.recalls_iff (h : v.Alike w last since) (hsince : since ≤ asked)
    (hasked : asked < Clock.limit) :
    v.Recalls asked secret stored ↔ w.Recalls asked secret stored := by
  unfold Recalls
  rw [h.key_eq]
  refine exists_congr fun e => ?_
  rw [← and_assoc, ← and_assoc, h.cache.live_iff hsince hasked]

/-- A check by the hash does the same on both. -/
theorem Alike.check (h : v.Alike w last since) (hlast : last ≤ now) (hsince : since ≤ now)
    (hnow : now < Clock.limit) (secret stored : Bytes) :
    (v.check now secret stored).1 = (w.check now secret stored).1 ∧
      (v.check now secret stored).2.Alike (w.check now secret stored).2 (now + 1) now := by
  obtain ⟨configV, hasher, hashing, keySecret, cacheV, sweeperV⟩ := v
  obtain ⟨configW, _, _, _, cacheW, sweeperW⟩ := w
  obtain ⟨rfl, rfl, rfl, hcache⟩ := h
  have hstay := hcache.mono (Nat.le_succ_of_le hlast) hsince
  unfold Verifier.check
  cases Utf8.decode? stored with
  | none => exact ⟨rfl, rfl, rfl, rfl, hstay⟩
  | some text =>
      cases hanswer : (hasher.crypt secret (some text) hashing).1 with
      | error error =>
          simp only [hanswer, true_and]
          exact ⟨rfl, rfl, rfl, hstay⟩
      | ok fresh =>
          simp only [hanswer]
          by_cases hsame : sameBytes stored (Utf8.encode fresh) = true
          · rw [if_pos hsame, if_pos hsame]
            exact ⟨rfl, rfl, rfl, rfl, hcache.insert hlast hsince hnow _ fresh⟩
          · rw [if_neg hsame, if_neg hsame]
            exact ⟨rfl, rfl, rfl, rfl, hstay⟩

/-- A check does the same on both, whether it is answered from the memory or by the hash. -/
theorem Alike.verify (h : v.Alike w last since) (hlast : last ≤ asked) (hsince : since ≤ asked)
    (hforward : asked ≤ answered) (hbelow : answered < Clock.limit) (secret stored : Bytes) :
    (v.verify asked answered secret stored).1 = (w.verify asked answered secret stored).1 ∧
      (v.verify asked answered secret stored).2.Alike (w.verify asked answered secret stored).2
        (answered + 1) answered := by
  have hasked : asked < Clock.limit := Nat.lt_of_le_of_lt hforward hbelow
  have hkey := h.key_eq secret stored
  by_cases hrecalls : v.Recalls asked secret stored
  · have hrecallsW := (h.recalls_iff hsince hasked).mp hrecalls
    rw [verify_of_recalls hrecalls, verify_of_recalls hrecallsW]
    obtain ⟨e, hfound, hlive, -⟩ := hrecalls
    rw [hkey] at hfound
    obtain ⟨hfoundW, -⟩ := (h.cache.live_iff hsince hasked).mp ⟨hfound, hlive⟩
    have htouched := h.cache.touch hlast hsince hasked hfound hfoundW
    rw [hkey]
    exact ⟨rfl, h.hasher, h.hashing, h.keySecret,
      htouched.mono (Nat.succ_le_succ hforward) hforward⟩
  · have hrecallsW : ¬ w.Recalls asked secret stored :=
      fun hw => hrecalls ((h.recalls_iff hsince hasked).mpr hw)
    rw [verify_of_not_recalls hrecalls, verify_of_not_recalls hrecallsW, hkey]
    have herased : Alike { v with cache := v.cache.erase (w.key secret stored) }
        { w with cache := w.cache.erase (w.key secret stored) } last since :=
      ⟨h.hasher, h.hashing, h.keySecret, h.cache.erase _⟩
    exact herased.check (Nat.le_trans hlast hforward) (Nat.le_trans hsince hforward) hbelow
      secret stored

/-- Making a token does the same on both. -/
theorem Alike.create (h : v.Alike w last since) (secret : Bytes) :
    (v.createCredential secret).1 = (w.createCredential secret).1 ∧
      (v.createCredential secret).2.Alike (w.createCredential secret).2 last since := by
  constructor
  · unfold createCredential
    rw [h.hasher, h.hashing]
    cases hanswer : (w.hasher.crypt secret none w.hashing).1 with
    | ok text => simp only [hanswer]
    | error error => simp only [hanswer]
  · rw [createCredential_snd, createCredential_snd, h.hasher, h.hashing]
    exact ⟨rfl, rfl, h.keySecret, h.cache⟩

/-- Clearing both leaves them alike. -/
theorem Alike.cleared (h : v.Alike w last since) (last' since' : Nat) :
    Cache.Alike v.cache.clear w.cache.clear last' since' := by
  unfold Cache.clear
  rw [h.cache.bounds]
  exact Cache.Alike.empty w.cache.bounds last' since'

/-! ### One operation on two verifiers -/

/-- Whether an operation only keeps the memory tidy: a sweep, or a count, which sweeps first. -/
def Op.isUpkeep : Op → Bool
  | .sweep | .cacheSize => true
  | _ => false

/-- What a client asks of two alike verifiers is answered the same and leaves them alike. -/
theorem Alike.step {e : Event} (h : v.Alike w last since) (hlast : last ≤ e.asked)
    (hsince : since ≤ e.asked) (hforward : e.asked ≤ e.answered)
    (hbelow : e.answered < Clock.limit) (hclient : e.op.isUpkeep = false) :
    (v.step e).1 = (w.step e).1 ∧
      (v.step e).2.Alike (w.step e).2 (e.answered + 1) e.answered := by
  obtain ⟨asked, answered, op⟩ := e
  have hlater : last ≤ answered + 1 := Nat.le_succ_of_le (Nat.le_trans hlast hforward)
  have hsinceLater : since ≤ answered := Nat.le_trans hsince hforward
  cases op with
  | verify secret stored =>
      obtain ⟨hanswer, halike⟩ := h.verify hlast hsince hforward hbelow secret stored
      exact ⟨congrArg Answer.verdict hanswer, halike⟩
  | create secret =>
      obtain ⟨hanswer, halike⟩ := h.create secret
      exact ⟨congrArg Answer.token hanswer, halike.mono hlater hsinceLater⟩
  | clearCache => exact ⟨rfl, h.hasher, h.hashing, h.keySecret, h.cleared _ _⟩
  | shutdown => exact ⟨rfl, h.hasher, h.hashing, h.keySecret, h.cleared _ _⟩
  | cacheSize => cases hclient
  | sweep => cases hclient

/-- Upkeep of one of two alike verifiers keeps them alike. -/
theorem Alike.upkeep {e : Event} (h : v.Alike w last since) (hsince : since ≤ e.asked)
    (hbelow : e.asked < Clock.limit) (hupkeep : e.op.isUpkeep = true) :
    (v.step e).2.Alike w last e.asked := by
  obtain ⟨asked, answered, op⟩ := e
  have hswept : (v.sweep asked).Alike w last asked :=
    ⟨h.hasher, h.hashing, h.keySecret, h.cache.sweep hsince hbelow⟩
  cases op with
  | sweep => exact hswept
  | cacheSize => exact hswept
  | _ => cases hupkeep

/-! ### Runs -/

/-- What clients ask in a run: all but upkeep. -/
def clientEvents (events : List Event) : List Event := events.filter fun e => !e.op.isUpkeep

/-- What a verifier does for clients in a run: each call with its times, its answer, and the calls
of the hasher that it made. -/
def clientDeeds (v : Verifier (List HashCall × σ)) (events : List Event) : List Deed :=
  (v.chronicle events).filter fun d => !d.event.op.isUpkeep

/-- The clock never goes back, and grows from one call of a client to the next. -/
structure ClientClock (events : List Event) : Prop extends ForwardClock events where
  increasing : (clientEvents events).Pairwise fun earlier later => earlier.answered < later.asked

instance (events : List Event) : Decidable (ClientClock events) :=
  decidable_of_iff (ForwardClock events ∧
      (clientEvents events).Pairwise fun earlier later => earlier.answered < later.asked)
    ⟨fun h => ⟨h.1, h.2⟩, fun h => ⟨h.toForwardClock, h.increasing⟩⟩

theorem ClientClock.tail {e : Event} {rest : List Event} (h : ClientClock (e :: rest)) :
    ClientClock rest :=
  ⟨h.toForwardClock.sublist (List.sublist_cons_self e rest),
    h.increasing.sublist ((List.sublist_cons_self e rest).filter _)⟩

section Log

variable {v w : Verifier (List HashCall × σ)} {e : Event} {events : List Event}

theorem clientDeeds_cons (v : Verifier (List HashCall × σ)) (e : Event) (rest : List Event) :
    v.clientDeeds (e :: rest) =
      (if e.op.isUpkeep then [] else [v.deed e]) ++ (v.step e).2.clientDeeds rest := by
  unfold clientDeeds
  rw [chronicle, List.filter_cons, show (v.deed e).event = e from rfl]
  cases e.op.isUpkeep with
  | true => rfl
  | false => rfl

/-- What a client asks of two alike verifiers makes the same calls of the hasher. -/
theorem Alike.deed_eq (h : v.Alike w last since) (hlast : last ≤ e.asked) (hsince : since ≤ e.asked)
    (hforward : e.asked ≤ e.answered) (hbelow : e.answered < Clock.limit)
    (hclient : e.op.isUpkeep = false) : v.deed e = w.deed e := by
  obtain ⟨hanswer, halike⟩ := h.step hlast hsince hforward hbelow hclient
  rw [deed, deed, hanswer, halike.hashing, h.hashing]

/-- A run with upkeep does for clients what the run of their calls alone does. -/
theorem Alike.clientDeeds (h : v.Alike w last since) (hclock : ClientClock events)
    (hlast : ∀ e ∈ clientEvents events, last ≤ e.asked) (hsince : ∀ e ∈ events, since ≤ e.asked) :
    v.clientDeeds events = w.chronicle (clientEvents events) := by
  induction events generalizing v w last since with
  | nil => rfl
  | cons e rest ih =>
      have hstart := hsince e List.mem_cons_self
      have hforward := hclock.forward e List.mem_cons_self
      have hbelow := hclock.below e List.mem_cons_self
      have hafter : ∀ later ∈ rest, e.answered ≤ later.asked :=
        (List.pairwise_cons.mp hclock.ordered).1
      cases hop : e.op.isUpkeep with
      | true =>
          have hskip : clientEvents (e :: rest) = clientEvents rest :=
            List.filter_cons_of_neg (by simp [hop])
          rw [hskip] at hlast ⊢
          rw [clientDeeds_cons, hop]
          refine ih (h.upkeep hstart (Nat.lt_of_le_of_lt hforward hbelow) hop) hclock.tail hlast ?_
          intro later hlater
          exact Nat.le_trans hforward (hafter later hlater)
      | false =>
          have hkeep : clientEvents (e :: rest) = e :: clientEvents rest :=
            List.filter_cons_of_pos (by simp [hop])
          rw [hkeep] at hlast
          have hlastHead := hlast e List.mem_cons_self
          have halike := (h.step hlastHead hstart hforward hbelow hop).2
          have hincreasing := hclock.increasing
          rw [hkeep] at hincreasing ⊢
          rw [clientDeeds_cons, hop, chronicle, h.deed_eq hlastHead hstart hforward hbelow hop,
            ih halike hclock.tail (List.pairwise_cons.mp hincreasing).1 hafter]
          rfl

end Log

/-- A run of sweeps only sweeps the cache. -/
theorem run_sweeps (v : Verifier σ) (times : List Nat) :
    (v.run (times.map fun time => ⟨time, time, .sweep⟩)).2 =
      { v with cache := Sweeper.sweepAt times v.cache } := by
  induction times generalizing v with
  | nil => rfl
  | cons time rest ih =>
      rw [List.map_cons, run_cons]
      exact ih (v.sweep time)

/-- What the sweeper of a verifier does between two times is a run of sweeps. -/
theorem advance_eq_run (v : Verifier σ) {sweeper : Sweeper} (h : v.sweeper = some sweeper)
    (after upTo : Nat) :
    v.advance after upTo =
      (v.run ((sweeper.ticks after upTo).map fun time => ⟨time, time, .sweep⟩)).2 := by
  simp only [advance, h, run_sweeps]

/-- New verifiers with the same bounds are alike, whatever sweeps their caches. -/
theorem alike_of_setUp {config₁ config₂ : Config} {hasher : Hasher σ} {hashing : σ}
    {keySecret : Bytes} {runtime₁ runtime₂ : Bool}
    (h₁ : setUp config₁ hasher hashing keySecret runtime₁ = .ok v)
    (h₂ : setUp config₂ hasher hashing keySecret runtime₂ = .ok w)
    (hbounds : config₁.bounds = config₂.bounds) : v.Alike w 0 0 := by
  obtain ⟨-, -, hhasher₁, hhashing₁, hkey₁, hcache₁⟩ := setUp_eq_ok h₁
  obtain ⟨-, -, hhasher₂, hhashing₂, hkey₂, hcache₂⟩ := setUp_eq_ok h₂
  refine ⟨hhasher₁.trans hhasher₂.symm, hhashing₁.trans hhashing₂.symm, hkey₁.trans hkey₂.symm, ?_⟩
  rw [hcache₁, hcache₂, hbounds]
  exact Cache.Alike.empty config₂.bounds 0 0

/-- What two new verifiers with the same bounds do for the same calls of clients, wherever either of
them is swept or counted between. -/
theorem clientDeeds_eq {config₁ config₂ : Config} {hasher : Hasher σ} {hashing : σ}
    {keySecret : Bytes} {runtime₁ runtime₂ : Bool} {v₁ v₂ : Verifier (List HashCall × σ)}
    {events₁ events₂ : List Event}
    (h₁ : setUp config₁ hasher.logging ([], hashing) keySecret runtime₁ = .ok v₁)
    (h₂ : setUp config₂ hasher.logging ([], hashing) keySecret runtime₂ = .ok v₂)
    (hbounds : config₁.bounds = config₂.bounds) (hclock₁ : ClientClock events₁)
    (hclock₂ : ClientClock events₂) (hsame : clientEvents events₁ = clientEvents events₂) :
    v₁.clientDeeds events₁ = v₂.clientDeeds events₂ := by
  have hdeeds₁ := (alike_of_setUp h₁ h₂ hbounds).clientDeeds hclock₁
    (fun e _ => Nat.zero_le e.asked) fun e _ => Nat.zero_le e.asked
  have hdeeds₂ := (alike_of_setUp h₂ h₂ rfl).clientDeeds hclock₂
    (fun e _ => Nat.zero_le e.asked) fun e _ => Nat.zero_le e.asked
  rw [hdeeds₁, hdeeds₂, hsame]

/-- **Sweeps are not seen.** Two runs of a cache with the same operations on keys, and with sweeps
and counts anywhere between, read the same. Two runs of a verifier with the same calls of clients,
and with sweeps and counts anywhere between, give the same answers and make the same calls of the
hasher, each at the same call of a client. -/
theorem sweeps_unseen {κ ν : Type} [DecidableEq κ] :
    (∀ (bounds : Bounds) (ops₁ ops₂ : List (Nat × Cache.Op κ ν)), Cache.ClientClock ops₁ →
      Cache.ClientClock ops₂ → Cache.clientOps ops₁ = Cache.clientOps ops₂ →
      (Cache.empty bounds).reads ops₁ = (Cache.empty bounds).reads ops₂) ∧
    (∀ (config₁ config₂ : Config) (hasher : Hasher σ) (hashing : σ) (keySecret : Bytes)
      (runtime₁ runtime₂ : Bool) (v₁ v₂ : Verifier (List HashCall × σ))
      (events₁ events₂ : List Event),
      setUp config₁ hasher.logging ([], hashing) keySecret runtime₁ = .ok v₁ →
      setUp config₂ hasher.logging ([], hashing) keySecret runtime₂ = .ok v₂ →
      config₁.bounds = config₂.bounds → ClientClock events₁ → ClientClock events₂ →
      clientEvents events₁ = clientEvents events₂ →
      v₁.clientDeeds events₁ = v₂.clientDeeds events₂) := by
  constructor
  · intro bounds ops₁ ops₂ hclock₁ hclock₂ hsame
    exact Cache.reads_eq_of_clientOps_eq bounds hclock₁ hclock₂ hsame
  · intro config₁ config₂ hasher hashing keySecret runtime₁ runtime₂ v₁ v₂ events₁ events₂ h₁ h₂
      hbounds hclock₁ hclock₂ hsame
    exact clientDeeds_eq h₁ h₂ hbounds hclock₁ hclock₂ hsame

/-! ### Expired entries that fill the places -/

/-- Two entries expire; two more come, and are read. -/
def untidied : List (Nat × Cache.Op String Nat) :=
  [(1, .insert "a" 1), (2, .insert "b" 2), (20, .insert "c" 3), (21, .insert "d" 4),
    (22, .get "c"), (23, .contains "a"), (24, .get "d")]

/-- The same with a sweep every four nanoseconds, and a count. -/
def tidied : List (Nat × Cache.Op String Nat) :=
  [(1, .insert "a" 1), (2, .insert "b" 2), (4, .sweep), (8, .sweep), (12, .sweep), (16, .sweep),
    (20, .sweep), (20, .insert "c" 3), (21, .insert "d" 4), (21, .size), (22, .get "c"),
    (23, .contains "a"), (24, .sweep), (24, .get "d")]

/-- A success that expires, and another one in its place. -/
def unattended : List Event :=
  [⟨1, 2, .verify [1] (Utf8.encode "token")⟩, ⟨3, 3, .verify [1] (Utf8.encode "token")⟩,
    ⟨2000010, 2000011, .verify [1] (Utf8.encode "second")⟩,
    ⟨2000012, 2000012, .verify [1] (Utf8.encode "second")⟩, ⟨2000013, 2000013, .clearCache⟩,
    ⟨2000014, 2000014, .create [1]⟩, ⟨2000015, 2000016, .verify [1] (Utf8.encode "token")⟩]

/-- The same with the sweeps of every millisecond, and two counts. -/
def attended : List Event :=
  [⟨1, 2, .verify [1] (Utf8.encode "token")⟩, ⟨3, 3, .cacheSize⟩,
    ⟨3, 3, .verify [1] (Utf8.encode "token")⟩, ⟨1000000, 1000000, .sweep⟩,
    ⟨2000000, 2000000, .sweep⟩, ⟨2000010, 2000011, .verify [1] (Utf8.encode "second")⟩,
    ⟨2000012, 2000012, .verify [1] (Utf8.encode "second")⟩, ⟨2000013, 2000013, .clearCache⟩,
    ⟨2000014, 2000014, .create [1]⟩, ⟨2000014, 2000014, .cacheSize⟩,
    ⟨2000015, 2000016, .verify [1] (Utf8.encode "token")⟩]

/-- A hasher that gives every token back, and numbers its fresh ones. -/
def numbering : Hasher Nat where
  crypt _ existing state := (.ok (existing.getD (toString state)), state + 1)

/-- The sweeps take what the insertions would evict without them, and nothing that is read. -/
theorem same_tidied_and_attended :
    (Cache.ClientClock untidied ∧ Cache.ClientClock tidied ∧
      Cache.clientOps untidied = Cache.clientOps tidied ∧
      ((Cache.empty (.ofLimits 2 ⟨10⟩)).reads untidied).map Prod.snd =
        [.value (some 3), .flag false, .value (some 4)] ∧
      (Cache.empty (.ofLimits 2 ⟨10⟩)).reads untidied =
        (Cache.empty (.ofLimits 2 ⟨10⟩)).reads tidied) ∧
    ∃ v₁ v₂, setUp ⟨1, 1, 1, none⟩ numbering.logging ([], 0) [7] false = .ok v₁ ∧
      setUp ⟨1, 1, 1, some 1⟩ numbering.logging ([], 0) [7] true = .ok v₂ ∧
      ClientClock unattended ∧ ClientClock attended ∧
      clientEvents unattended = clientEvents attended ∧
      v₁.clientDeeds unattended = v₂.clientDeeds attended := by
  have hclock₁ : Cache.ClientClock untidied := by decide
  have hclock₂ : Cache.ClientClock tidied := by decide
  have hevents₁ : ClientClock unattended := by decide
  have hevents₂ : ClientClock attended := by decide
  obtain ⟨hreads, hdeeds⟩ := @sweeps_unseen Nat String Nat _
  constructor
  · exact ⟨hclock₁, hclock₂, rfl, rfl, hreads _ _ _ hclock₁ hclock₂ rfl⟩
  · refine ⟨_, _, rfl, rfl, hevents₁, hevents₂, rfl, ?_⟩
    exact hdeeds ⟨1, 1, 1, none⟩ ⟨1, 1, 1, some 1⟩ numbering 0 [7] false true _ _ _ _ rfl rfl rfl
      hevents₁ hevents₂ rfl

end AccessControl.Verifier
