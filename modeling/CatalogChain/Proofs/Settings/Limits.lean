import CatalogChain.Proofs.Service.Breaking
import CatalogChain.Proofs.Settings.Reading

/-!
# Which settings hold out

A deployment holds out if whatever it is asked has an answer (`Deployment.HoldsOut`): a single
write has an outcome, a batch has a result for each of its writes, and no write breaks off among
others.  Settings hold out if a deployment with them can be started, and holds out whatever has
happened to it (`Settings.Robust`).

There are three limits to this (`Settings.WithinLimits`), one each for the capacity of the feed, the
places of a crew, and the waits for a lock.  Settings within them hold out
(`Settings.WithinLimits.robust`), and each of them is needed (`Settings.Robust.withinLimits`).

The bounds that are checked when settings are read are others (`Settings.InRange`).  They keep each
number from being zero but let it be as great as 64 bits allow, so there are settings that are
accepted and do not hold out (`Settings.not_robust_sample`).
-/

namespace CatalogChain

/-! ## Deployments that hold out -/

/-- **A deployment that holds out.** -/
structure Deployment.HoldsOut (σ : Supply) (d : Deployment) : Prop where
  write : ∀ (cancellation : Cancellation) (r : Request),
    ∃ outcome d', d.perform? σ cancellation r = some (outcome, d')
  batch : ∀ (cancellation : Cancellation) (requests : List Request),
    ∃ (outcomes : List Outcome) (d' : Deployment), outcomes.length = requests.length ∧
      d.performBatch? σ cancellation requests =
        some (List.zipWith BatchResult.ofOutcome requests (outcomes.map some), d')
  /-- Writes among others have outcomes, however many have places at a time, -/
  amid : ∀ others, Loyal others → ∀ (cancellation : Cancellation) (prompt : Bool) (places : Nat)
    (requests : List Request), 1 ≤ places → ∀ i < requests.length,
      ∃ outcome, ((Crew.ofRequests d cancellation prompt places requests).runAmid σ others
        (Crew.longestWork d.service.settings requests.length)).2.outcome? i = some outcome
  /-- and none breaks off, in whatever order they make their steps. -/
  mixed : ∀ actions, ∀ c ∈ (World.run σ ⟨d.service, []⟩ actions).calls, c.stage ≠ .broken

namespace Deployment

variable {σ : Supply} {d : Deployment}

/-- **A deployment holds out** where all waits can be counted and a crew can have its places. -/
theorem holdsOut_of_countable (hcountable : d.service.settings.Countable)
    (hplaces : d.service.settings.places ≤ Crew.maxPlaces) : d.HoldsOut σ where
  write cancellation r := exists_perform? hcountable cancellation r
  batch cancellation requests := exists_performBatch? hcountable hplaces cancellation requests
  amid _ hothers cancellation prompt _ requests hpos _ hi :=
    Crew.exists_outcome hcountable hothers cancellation prompt hpos requests hi
  mixed actions c hc := by
    obtain ⟨x, hx, rfl⟩ := List.mem_map.mp hc
    have hempty : World.Within (fun s => s.settings = d.service.settings)
        (fun call => call.stage ≠ .broken) ⟨d.service, []⟩ := ⟨rfl, fun _ hx => by cases hx⟩
    exact ((Service.Invariant.unbroken σ hcountable).world hempty
      fun _ _ => Stage.noConfusion).writers x hx

theorem places_of_performBatch? {cancellation : Cancellation} {requests : List Request}
    {result : List BatchResult × Deployment}
    (h : d.performBatch? σ cancellation requests = some result) :
    d.service.settings.places ≤ Crew.maxPlaces := by
  unfold performBatch? at h
  split_ifs at h with hplaces
  exact hplaces

/-- **Where some wait cannot be counted**, a lock can be held so long that a write breaks off. -/
theorem exists_operate_perform?_eq_none (h : ¬ d.service.settings.Countable) :
    ∃ op, (d.operate σ op).perform? σ .never (.remove "prod_1") = none := by
  obtain ⟨last, hlast, hlt⟩ := WriteSettings.exists_lastTry h
  let free := Call.tryAt d.service.settings d.now last + 1
  let locks : LockTable := ⟨.put .empty (Product.lockKey "prod_1") ⟨1, free⟩, 1⟩
  have hfree : locks.freeFrom (Product.lockKey "prod_1") = free := by
    rw [LockTable.freeFrom, Table.get?_put, if_pos rfl]
    rfl
  refine ⟨.surround locks d.service.feed d.now d.roster d.sweeper, ?_⟩
  exact perform?_eq_none rfl rfl hlast hlt (Nat.lt_of_lt_of_eq (Nat.lt_succ_self _) hfree.symm)

/-- A deployment can be started if a channel can have the capacity. -/
theorem exists_ofSettings?_iff {settings : Settings} : (∃ d, ofSettings? settings = some d) ↔
    settings.feedCapacity ≤ Feed.maxCapacity := by
  unfold ofSettings? Feed.ofCapacity?
  split_ifs with h <;> simp [h]

end Deployment

/-- The settings of a service never change. -/
theorem Service.Invariant.settings (σ : Supply) (settings : WriteSettings) :
    Service.Invariant σ (fun s => s.settings = settings) fun _ => True where
  step s c now cancelled hs _ := ⟨(c.step_moves σ now cancelled s).settings_eq.trans hs, trivial⟩
  surround _ _ _ hs := hs

/-! ## Settings that hold out -/

namespace Settings

/-- **The limits of settings.** -/
structure WithinLimits (s : Settings) : Prop where
  /-- A channel can have the capacity, -/
  capacity : s.feedCapacity ≤ Feed.maxCapacity
  /-- a crew can have the places, -/
  places : s.writes.concurrency ≤ Crew.maxPlaces
  /-- and the wait before the last attempt can be counted. -/
  waits : s.writes.backoff * (s.writes.attempts - 1) / 1000 < twoTo 64

instance (s : Settings) : Decidable s.WithinLimits :=
  decidable_of_iff (s.feedCapacity ≤ Feed.maxCapacity ∧ s.writes.concurrency ≤ Crew.maxPlaces ∧
      s.writes.backoff * (s.writes.attempts - 1) / 1000 < twoTo 64)
    ⟨fun ⟨h, h', h''⟩ => ⟨h, h', h''⟩, fun ⟨h, h', h''⟩ => ⟨h, h', h''⟩⟩

/-- A deployment that was started with settings, behind any run. -/
def Reached (σ : Supply) (s : Settings) (d : Deployment) : Prop :=
  ∃ first ops, Deployment.ofSettings? s = some first ∧ first.run σ ops = d

/-- **Settings that hold out**: a deployment with them can be started, and holds out whatever
happens to it. -/
structure Robust (σ : Supply) (s : Settings) : Prop where
  starts : ∃ d, Deployment.ofSettings? s = some d
  lasts : ∀ d, s.Reached σ d → d.HoldsOut σ

variable {σ : Supply} {s : Settings} {d : Deployment}

theorem Reached.settings_eq (h : s.Reached σ d) : d.service.settings = s.writes := by
  obtain ⟨first, ops, hfirst, rfl⟩ := h
  obtain ⟨feed, -, rfl⟩ := Option.map_eq_some_iff.mp hfirst
  exact (Service.Invariant.settings σ s.writes).run rfl fun _ _ _ _ => trivial

theorem countable_iff : s.writes.Countable ↔
    s.writes.backoff * (s.writes.attempts - 1) / 1000 < twoTo 64 := by
  rw [WriteSettings.countable_iff, Call.attemptLimit,
    show max 1 s.writes.attempts - 1 = s.writes.attempts - 1 by omega]

theorem places_le_iff :
    s.writes.places ≤ Crew.maxPlaces ↔ s.writes.concurrency ≤ Crew.maxPlaces := by
  have hpos : 1 ≤ Crew.maxPlaces := by decide
  rw [WriteSettings.places, Nat.max_le]
  exact and_iff_right hpos

/-- **Settings within the limits hold out.** -/
theorem WithinLimits.robust (h : s.WithinLimits) : s.Robust σ where
  starts := Deployment.exists_ofSettings?_iff.mpr h.capacity
  lasts d hd := by
    have hsettings := hd.settings_eq
    refine Deployment.holdsOut_of_countable ?_ ?_
    · rw [hsettings]
      exact countable_iff.mpr h.waits
    · rw [hsettings]
      exact places_le_iff.mpr h.places

/-- **Settings that hold out are within the limits.** -/
theorem Robust.withinLimits (h : s.Robust σ) : s.WithinLimits := by
  obtain ⟨first, hfirst⟩ := h.starts
  have hreached : s.Reached σ first := ⟨first, [], hfirst, rfl⟩
  have hsettings := hreached.settings_eq
  refine ⟨Deployment.exists_ofSettings?_iff.mp h.starts, ?_, ?_⟩
  · -- a batch needs its places even if there is nothing to do
    obtain ⟨outcomes, d', -, hbatch⟩ := (h.lasts first hreached).batch .never []
    rw [← places_le_iff, ← hsettings]
    exact Deployment.places_of_performBatch? hbatch
  · rw [← countable_iff, ← hsettings]
    by_contra hnot
    obtain ⟨op, hnone⟩ := Deployment.exists_operate_perform?_eq_none (σ := σ) hnot
    obtain ⟨outcome, d', hsome⟩ :=
      (h.lasts (first.operate σ op) ⟨first, [op], hfirst, rfl⟩).write .never (.remove "prod_1")
    rw [hnone] at hsome
    cases hsome

/-- **What becomes of settings**: whether an environment gives them, and whether they hold out. -/
structure Assessed (σ : Supply) (s : Settings) : Prop where
  accepted : (∃ vars, ofVariables vars = .ok s) ↔ s.InRange
  robust : s.Robust σ ↔ s.WithinLimits

/-- **Settings are accepted if they are in range, and hold out if they are within the limits.** -/
theorem assessed (σ : Supply) (s : Settings) : s.Assessed σ where
  accepted := exists_ofVariables_iff
  robust := ⟨Robust.withinLimits, WithinLimits.robust⟩

/-- Settings of which nothing is set are within the limits. -/
example : ofVariables [] = .ok {} ∧ WithinLimits {} := by decide

/-- **Settings that are accepted need not hold out**: a batch has no results, no deployment can be
started, or a write has no outcome. -/
theorem not_robust_sample :
    (∃ s d, ofVariables [("BATCH_CONCURRENCY", "2305843009213693952")] = .ok s ∧
      Deployment.ofSettings? s = some d ∧
      d.performBatch? .sample .never [.remove "a"] = none ∧ ¬ s.Robust .sample) ∧
    (∃ s, ofVariables [("PUBLISHER_CAPACITY", "9223372036854775808")] = .ok s ∧
      Deployment.ofSettings? s = none ∧ ¬ s.Robust .sample) ∧
    ∃ s d op, ofVariables [("LOCK_RETRY_ATTEMPTS", "1002"),
        ("LOCK_RETRY_BACKOFF_MS", "18446744073709551615")] = .ok s ∧
      Deployment.ofSettings? s = some d ∧
      (d.operate .sample op).perform? .sample .never (.remove "prod_1") = none ∧
      ¬ s.Robust .sample := by
  refine ⟨⟨_, _, rfl, rfl, if_neg (by decide), fun h => ?_⟩, ⟨_, rfl, rfl, fun h => ?_⟩, ?_⟩
  · exact absurd h.withinLimits.places (by decide)
  · exact absurd h.withinLimits.capacity (by decide)
  · let s : Settings := { writes := { attempts := 1002, backoff := 18446744073709551615 } }
    have hwaits : ¬ s.writes.backoff * (s.writes.attempts - 1) / 1000 < twoTo 64 := by decide
    let d := Deployment.fresh s.writes (.ofCapacity s.feedCapacity)
    obtain ⟨op, hnone⟩ := Deployment.exists_operate_perform?_eq_none (σ := .sample) (d := d)
      (countable_iff.not.mpr hwaits)
    exact ⟨s, d, op, rfl, rfl, hnone, fun h => hwaits h.withinLimits.waits⟩

end Settings

end CatalogChain
