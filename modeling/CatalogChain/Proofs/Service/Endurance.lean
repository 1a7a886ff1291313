import CatalogChain.Proofs.Service.AllOrNothing
import CatalogChain.Proofs.Service.Invariants
import CatalogChain.Proofs.Service.Outcomes
import CatalogChain.Proofs.Service.Retries
import Mathlib.Data.Set.List

/-!
# Writes that do not break off

A call breaks off only where a wait cannot be counted (`Call.Moves.broken`).  If all waits of the
settings can (`WriteSettings.Countable`), no call ever does, in whatever order the calls make their
steps (`Service.Invariant.unbroken`).

So every job of a crew has an outcome in the end (`Crew.exists_outcome`), whatever others do to the
service meanwhile (`Crew.runAmid`), as long as they leave its settings alone: the effort that is left
depends on the settings only, and falls with every step of the crew as it does where nobody else is
at work.
-/

namespace CatalogChain

/-- **All waits can be counted** that writes with some settings make. -/
def WriteSettings.Countable (settings : WriteSettings) : Prop :=
  ∀ n < Call.attemptLimit settings, Call.wait? settings n ≠ none

theorem Call.wait?_ne_none_iff {settings : WriteSettings} {n : Nat} :
    wait? settings n ≠ none ↔ settings.backoff * n / 1000 < twoTo 64 := by
  unfold wait?
  split_ifs with h <;> simp [h]

/-- **All waits can be counted if the longest one can**, the wait before the last attempt. -/
theorem WriteSettings.countable_iff {settings : WriteSettings} : settings.Countable ↔
    settings.backoff * (Call.attemptLimit settings - 1) / 1000 < twoTo 64 := by
  have hpos := Call.attemptLimit_pos settings
  refine ⟨fun h => Call.wait?_ne_none_iff.mp (h _ (by omega)), fun h n hn => ?_⟩
  have hle : settings.backoff * n ≤ settings.backoff * (Call.attemptLimit settings - 1) :=
    Nat.mul_le_mul_left _ (by omega)
  exact Call.wait?_ne_none_iff.mpr (Nat.lt_of_le_of_lt (Nat.div_le_div_right hle) h)

/-- **Others who leave the settings of a service alone**, whatever else they do to it. -/
def Loyal (others : Nat → Service → Service) : Prop :=
  ∀ i s, (others i s).settings = s.settings

/-- Who does nothing leaves the settings alone. -/
theorem loyal_idle : Loyal fun _ s => s := fun _ _ => rfl

/-! ## Calls -/

/-- **Where all waits can be counted, no call breaks off.** -/
theorem Service.Invariant.unbroken (σ : Supply) {settings : WriteSettings}
    (h : settings.Countable) :
    Service.Invariant σ (fun s => s.settings = settings) fun c => c.stage ≠ .broken where
  step s c now cancelled hs hc := by
    have hmoves := c.step_moves σ now cancelled s
    refine ⟨hmoves.settings_eq.trans hs, fun hb => ?_⟩
    rcases hmoves.broken hb with hb | ⟨n, hn, hnone⟩
    · exact hc hb
    · rw [hs] at hn hnone
      exact h n hn hnone
  surround _ _ _ hs := hs

/-- A call that has ended and has not broken off has its outcome. -/
theorem Call.exists_outcome {c : Call} (hover : c.isOver = true) (h : c.stage ≠ .broken) :
    ∃ outcome, c.outcome? = some outcome := by
  unfold isOver at hover
  split at hover
  · next outcome hs => exact ⟨outcome, by rw [outcome?, hs]⟩
  · next hs => exact absurd hs h
  · cases hover

/-! ## Crews among others -/

namespace Crew

variable {σ : Supply} {others : Nat → Service → Service} {c c' : Crew}

theorem runAmid_succ (n : Nat) (hs : c.step σ = some c') :
    (c.runAmid σ others (n + 1)).2 = ((c'.disturb (others n)).runAmid σ others n).2 := by
  rw [runAmid_of_step hs]

theorem runAmid_of_step_eq_none (n : Nat) (hs : c.step σ = none) :
    (c.runAmid σ others n).2 = c := by
  cases n with
  | zero => rfl
  | succ n => rw [runAmid, hs]

/-- **What the steps of a crew and the changes by others keep** holds behind any number of them. -/
theorem runAmid_induction {Q : Crew → Prop} (hstep : ∀ c c', Q c → c.step σ = some c' → Q c')
    (hothers : ∀ i c, Q c → Q (c.disturb (others i))) (h : Q c) (n : Nat) :
    Q (c.runAmid σ others n).2 := by
  induction n generalizing c with
  | zero => exact h
  | succ n ih =>
    cases hs : c.step σ with
    | none =>
      rw [runAmid_of_step_eq_none _ hs]
      exact h
    | some c' =>
      rw [runAmid_succ n hs]
      exact ih (hothers n c' (hstep c c' h hs))

/-- The jobs of a crew do not depend on what others do. -/
theorem Lively.disturb (h : c.Lively) (change : Service → Service) : (c.disturb change).Lively :=
  ⟨h.queue, h.ready, h.sleeping, h.manned⟩

theorem effort_disturb {change : Service → Service}
    (h : (change c.deployment.service).settings = c.deployment.service.settings) :
    (c.disturb change).effort = c.effort := by
  have hpending : (c.disturb change).pending = c.pending := rfl
  simp only [effort, hpending]
  simp only [disturb, h]

/-- **Enough steps take a crew to its end**, whatever others do that leave the settings alone. -/
theorem Lively.step_runAmid_eq_none (hothers : Loyal others) (h : c.Lively) {n : Nat}
    (hn : c.effort ≤ n) : (c.runAmid σ others n).2.step σ = none := by
  induction n generalizing c with
  | zero =>
    show c.step σ = none
    cases hs : c.step σ with
    | none => rfl
    | some c' =>
      have hlt := (h.step hs).2
      omega
  | succ n ih =>
    cases hs : c.step σ with
    | none =>
      rw [runAmid_of_step_eq_none _ hs]
      exact hs
    | some c' =>
      obtain ⟨hlively, hlt⟩ := h.step hs
      rw [runAmid_succ n hs]
      refine ih (hlively.disturb (others n)) ?_
      rw [effort_disturb (hothers n _)]
      omega

/-- **A crew none of whose jobs has broken off.** -/
structure Intact (settings : WriteSettings) (c : Crew) : Prop where
  within : c.Within (fun s => s.settings = settings) fun call => call.stage ≠ .broken
  ended : ∀ p ∈ c.ended, ∃ outcome, p.2 = some outcome

section Intact
variable {settings : WriteSettings} (hcountable : settings.Countable)
include hcountable

theorem Intact.step (h : c.Intact settings) (hs : c.step σ = some c') : c'.Intact settings where
  within := (Service.Invariant.unbroken σ hcountable).turn.step h.within hs
  ended p hp := by
    rcases step_cases hs with ⟨job, ready, hready, rfl⟩ | ⟨-, rfl⟩ | ⟨first, -, -, -, -, rfl⟩
    · by_cases hover : (resumed σ c job).2.isOver = true
      · rw [work_of_isOver ready hover] at hp
        rcases List.mem_cons.mp hp with rfl | hp
        · -- the job that has ended was intact when it went on
          have hjob := h.within.ready job (by rw [hready]; exact List.mem_cons_self)
          have hturn : (resumed σ c job).1.settings = settings ∧
              (resumed σ c job).2.stage ≠ .broken :=
            Call.settle_induction (Q := fun s call => s.settings = settings ∧ call.stage ≠ .broken)
              (fun s call _ hcall => (Service.Invariant.unbroken σ hcountable).step s call _ _
                hcall.1 hcall.2) ⟨h.within.service, hjob⟩ _
          exact Call.exists_outcome hover hturn.2
        · exact h.ended p hp
      · rw [work_of_not_isOver ready hover] at hp
        exact h.ended p hp
    · exact h.ended p hp
    · exact h.ended p hp

end Intact

theorem Intact.disturb {settings : WriteSettings} (h : c.Intact settings)
    {change : Service → Service} (hchange : ∀ s, (change s).settings = s.settings) :
    (c.disturb change).Intact settings where
  within := ⟨(hchange _).trans h.within.service, h.within.queue, h.within.ready, h.within.sleeping⟩
  ended := h.ended

theorem intact_ofRequests (d : Deployment) (cancellation : Cancellation) (prompt : Bool)
    (places : Nat) (requests : List Request) :
    (ofRequests d cancellation prompt places requests).Intact d.service.settings where
  within := within_ofRequests (I := fun s => s.settings = d.service.settings) rfl
    (fun _ _ => Stage.noConfusion) cancellation prompt places
  ended _ hp := by cases hp

section Outcomes
variable {d : Deployment} (hcountable : d.service.settings.Countable) (hothers : Loyal others)
  (cancellation : Cancellation) (prompt : Bool) {places : Nat} (hplaces : 1 ≤ places)
  (requests : List Request)
include hcountable hothers hplaces

/-- **Every job of a crew has an outcome in the end**, whatever others do meanwhile. -/
theorem exists_outcome {i : Nat} (hi : i < requests.length) :
    ∃ outcome, ((ofRequests d cancellation prompt places requests).runAmid σ others
      (longestWork d.service.settings requests.length)).2.outcome? i = some outcome := by
  generalize hlast : (ofRequests d cancellation prompt places requests).runAmid σ others
    (longestWork d.service.settings requests.length) = result
  have hlively : result.2.Lively := hlast ▸ runAmid_induction (fun _ _ h hs => (h.step hs).1)
    (fun i _ h => h.disturb (others i))
    (lively_ofRequests d cancellation prompt requests hplaces) _
  have hnumbered : result.2.Numbered requests.length := hlast ▸ runAmid_induction
    (fun _ _ h hs => h.step hs) (fun _ _ h => h)
    (numbered_ofRequests d cancellation prompt places requests) _
  have hintact : result.2.Intact d.service.settings := hlast ▸ runAmid_induction
    (fun _ _ h hs => h.step hcountable hs) (fun i _ h => h.disturb (hothers i))
    (intact_ofRequests d cancellation prompt places requests) _
  have hidle : result.2.step σ = none := hlast ▸
    (lively_ofRequests d cancellation prompt requests hplaces).step_runAmid_eq_none hothers
      (effort_ofRequests_le d cancellation prompt requests places)
  obtain ⟨hqueue, hready, hsleeping⟩ := hlively.nil_of_step hidle
  -- no job is left, so the one asked for has ended
  unfold Numbered at hnumbered
  rw [jobs, hready, hsleeping, hqueue] at hnumbered
  rw [List.append_nil, List.append_nil, List.map_nil, List.append_nil] at hnumbered
  obtain ⟨p, hp, rfl⟩ := List.mem_map.mp (hnumbered.symm.subset (List.mem_range.mpr hi))
  obtain ⟨outcome, houtcome⟩ := hintact.ended p hp
  exact ⟨outcome, (outcome?_of_mem (hnumbered.nodup_iff.mpr List.nodup_range) hp).trans houtcome⟩

end Outcomes

end Crew

/-! ## Deployments -/

namespace Deployment

variable {σ : Supply} {d : Deployment} (hcountable : d.service.settings.Countable)
include hcountable

/-- **A single write has an outcome.** -/
theorem exists_perform? (cancellation : Cancellation) (r : Request) :
    ∃ outcome d', d.perform? σ cancellation r = some (outcome, d') := by
  obtain ⟨outcome, houtcome⟩ := Crew.exists_outcome (σ := σ) hcountable loyal_idle cancellation false
    (Nat.le_refl 1) [r] (i := 0) Nat.one_pos
  rw [Crew.runAmid_idle] at houtcome
  exact ⟨outcome, _, congrArg (Option.map _) houtcome⟩

/-- **Each write of a batch has an outcome**, if a crew can have its places. -/
theorem exists_performBatch? (hplaces : d.service.settings.places ≤ Crew.maxPlaces)
    (cancellation : Cancellation) (requests : List Request) :
    ∃ (outcomes : List Outcome) (d' : Deployment), outcomes.length = requests.length ∧
      d.performBatch? σ cancellation requests =
        some (List.zipWith BatchResult.ofOutcome requests (outcomes.map some), d') := by
  have hall : ∀ o ∈ (d.performAll σ cancellation d.service.settings.places requests).1,
      o ∈ Set.range (some : Outcome → Option Outcome) := by
    intro o ho
    obtain ⟨i, hi, rfl⟩ := List.mem_map.mp ho
    obtain ⟨outcome, houtcome⟩ := Crew.exists_outcome (σ := σ) hcountable loyal_idle cancellation true
      (Nat.le_max_left 1 d.service.settings.concurrency) requests (List.mem_range.mp hi)
    rw [Crew.runAmid_idle] at houtcome
    exact ⟨outcome, houtcome.symm⟩
  obtain ⟨outcomes, houtcomes⟩ : (d.performAll σ cancellation d.service.settings.places requests).1 ∈
      Set.range (List.map some) := by
    rw [Set.range_list_map]
    exact hall
  refine ⟨outcomes, (d.performAll σ cancellation d.service.settings.places requests).2, ?_, ?_⟩
  · have hlen := congrArg List.length houtcomes
    rw [List.length_map, performAll, List.length_map, List.length_range] at hlen
    exact hlen
  · unfold performBatch?
    rw [if_pos hplaces, performBatch, houtcomes]

end Deployment

end CatalogChain
