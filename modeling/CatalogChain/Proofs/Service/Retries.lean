import CatalogChain.Proofs.LockTable.Sweeping
import CatalogChain.Proofs.Service.Attempts
import CatalogChain.Proofs.Service.Completion
import CatalogChain.Proofs.Service.Rebuild

/-!
# Retries on schedule

A write that finds its lock held makes its attempts on schedule (`Call.tryAt`), whatever others do
meanwhile, as long as they leave the entry of its key alone.  So the instant at which the lock gets
free says which attempt decides (`Call.Decides`).  The write has its lock with that attempt, or it
gives up with its last one, unless it is cancelled before.

Others act between the steps of the crew that works on the write (`Crew.runAmid`), and the attempts
are kept in a list beside it.  A sleeping write is cancelled (`Crew.verdict_of_asleep`) or goes on
with its next attempt, and by induction on the attempts that are left it comes to its verdict
(`Crew.verdict_run`).
-/

namespace CatalogChain

open Call (tryAt refusals attemptLimit Decides)

/-- **A change by others** that leaves the settings and the entry of a key alone. -/
structure Considerate (key : String) (change : Service → Service) : Prop where
  settings : ∀ s, (change s).settings = s.settings
  entry : ∀ s, (change s).locks.locks.get? key = s.locks.locks.get? key

/-- **A deployment in which a lock is awaited**: its settings, and when the lock gets free. -/
structure Deployment.Awaits (d : Deployment) (settings : WriteSettings) (key : String)
    (free : Nat) : Prop where
  settings_eq : d.service.settings = settings
  frees : d.FreesAt key free

namespace Deployment.Awaits

variable {d : Deployment} {settings : WriteSettings} {key : String} {free : Nat}
  (h : d.Awaits settings key free)
include h

theorem disturbed {change : Service → Service} (hchange : Considerate key change) :
    Awaits { d with service := change d.service } settings key free where
  settings_eq := (hchange.settings _).trans h.settings_eq
  frees := h.frees.withService (hchange.entry _)

theorem passTo {now : Nat} (hnow : d.now ≤ now) : (d.passTo now).Awaits settings key free where
  settings_eq := h.settings_eq
  frees := h.frees.passTo hnow

end Deployment.Awaits

namespace Cancellation

/-- Work is cancelled before an instant. -/
def Before (instant : Nat) : Cancellation → Prop
  | never => False
  | already => True
  | due t => t < instant

/-- The instant at which work that began at `start` is seen to be cancelled. -/
def seenAt (start : Nat) : Cancellation → Nat
  | due t => max t start
  | _ => start

/-- A cancellation that is still to come does so at `start` or later. -/
def Timely (start : Nat) : Cancellation → Prop
  | due t => start ≤ t
  | _ => True

variable {cancellation : Cancellation} {now : Nat}
  (h : ∀ t, cancellation = .due t → now ≤ t)
include h

theorem not_before (halready : cancellation ≠ .already) : ¬ cancellation.Before now := by
  cases cancellation with
  | never => exact id
  | already => exact absurd rfl halready
  | due t => exact Nat.not_lt.mpr (h t rfl)

theorem le_of_dueAt? (t : Nat) (ht : cancellation.dueAt? = some t) : now ≤ t := by
  cases cancellation with
  | never | already => cases ht
  | due t' => exact Option.some.inj ht ▸ h t' rfl

end Cancellation

namespace Crew

/-! ## Crews among others -/

/-- The attempts that are made in the next step of a crew. -/
def tries (σ : Supply) (c : Crew) : List Attempt :=
  match c.ready with
  | job :: _ =>
    if c.prompt && c.isDue then []
    else job.call.resumeTries σ c.deployment.now c.cancelled c.deployment.service
  | [] => []

/-- Somebody else changes the service. -/
def disturb (c : Crew) (change : Service → Service) : Crew :=
  { c with deployment := { c.deployment with service := change c.deployment.service } }

/-- **A crew at work among others**, who change the service behind each of its steps: the attempts
that it makes within `n` steps, and the crew behind them. -/
def runAmid (σ : Supply) (others : Nat → Service → Service) :
    (n : Nat) → Crew → List Attempt × Crew
  | 0, c => ([], c)
  | n + 1, c =>
    match c.step σ with
    | none => ([], c)
    | some next =>
      let (attempts, last) := runAmid σ others n (next.disturb (others n))
      (c.tries σ ++ attempts, last)

/-- A crew of nobody but the job of a single write. -/
def lone (d : Deployment) (cancelled : Bool) (cancelAt : Option Nat) (ready sleeping : List Job) :
    Crew :=
  { deployment := d
    prompt := false
    cancelled
    cancelAt
    queue := []
    ready
    sleeping
    ended := [] }

end Crew

/-- **A single write among others**: its attempts, and the crew that has worked on it. -/
def Deployment.performAmid (σ : Supply) (others : Nat → Service → Service) (d : Deployment)
    (cancellation : Cancellation) (r : Request) : List Attempt × Crew :=
  (Crew.ofRequests d cancellation false 1 [r]).runAmid σ others
    (Crew.longestWork d.service.settings 1)

/-- Where others do nothing, a crew works as it does alone. -/
theorem Crew.runAmid_idle (σ : Supply) (n : Nat) (c : Crew) :
    (c.runAmid σ (fun _ s => s) n).2 = c.run σ n := by
  induction n generalizing c with
  | zero => rfl
  | succ n ih =>
    rw [runAmid, run]
    cases c.step σ with
    | none => rfl
    | some next => exact ih next

/-- **A single write** (`Deployment.perform?`) is one among others who do nothing. -/
theorem Deployment.perform?_eq_performAmid (σ : Supply) (d : Deployment)
    (cancellation : Cancellation) (r : Request) :
    let result := d.performAmid σ (fun _ s => s) cancellation r
    d.perform? σ cancellation r = (result.2.outcome? 0).map (·, result.2.deployment) := by
  simp only [performAmid, Crew.runAmid_idle]
  rfl

namespace Crew

/-! ## Steps of a crew of one -/

section Steps
variable {σ : Supply} {others : Nat → Service → Service} {d : Deployment} {cancelled : Bool}
  {cancelAt : Option Nat} {n : Nat} {c next : Crew}

theorem runAmid_of_step (h : c.step σ = some next) :
    c.runAmid σ others (n + 1) =
      (c.tries σ ++ ((next.disturb (others n)).runAmid σ others n).1,
        ((next.disturb (others n)).runAmid σ others n).2) := by
  rw [runAmid, h]

theorem runAmid_of_idle (hready : c.ready = []) (hsleeping : c.sleeping = []) :
    c.runAmid σ others n = ([], c) := by
  cases n with
  | zero => rfl
  | succ n =>
    have hstep : c.step σ = none := by
      unfold step
      rw [hready, hsleeping]
    rw [runAmid, hstep]

variable {call call' : Call} {s : Service}

/-- **A write that goes on and ends** is over. -/
theorem runAmid_over (others : Nat → Service → Service) (n : Nat) (cancelAt : Option Nat)
    (h : call.resume σ d.now cancelled d.service = (s, call')) (hover : call'.isOver = true) :
    ∃ last, (lone d cancelled cancelAt [⟨0, call⟩] []).runAmid σ others (n + 1) =
        (call.resumeTries σ d.now cancelled d.service, last) ∧
      last.outcome? 0 = call'.outcome? ∧ last.deployment.now = d.now := by
  have hresumed : resumed σ (lone d cancelled cancelAt [⟨0, call⟩] []) ⟨0, call⟩ = (s, call') := h
  have hstep : (lone d cancelled cancelAt [⟨0, call⟩] []).step σ =
      some ((lone d cancelled cancelAt [⟨0, call⟩] []).work σ ⟨0, call⟩ []) := rfl
  rw [work_of_isOver [] (by rw [hresumed, hover]), hresumed] at hstep
  rw [runAmid_of_step hstep, runAmid_of_idle rfl rfl]
  exact ⟨_, congrArg (·, _) (List.append_nil _), rfl, rfl⟩

/-- **A write that goes on and falls asleep** waits for its turn. -/
theorem runAmid_asleep (h : call.resume σ d.now cancelled d.service = (s, call'))
    (hover : call'.isOver = false) :
    (lone d cancelled cancelAt [⟨0, call⟩] []).runAmid σ others (n + 1) =
      let result := (lone { d with service := others n s } cancelled cancelAt []
        [⟨0, call'⟩]).runAmid σ others n
      (call.resumeTries σ d.now cancelled d.service ++ result.1, result.2) := by
  have hresumed : resumed σ (lone d cancelled cancelAt [⟨0, call⟩] []) ⟨0, call⟩ = (s, call') := h
  have hstep : (lone d cancelled cancelAt [⟨0, call⟩] []).step σ =
      some ((lone d cancelled cancelAt [⟨0, call⟩] []).work σ ⟨0, call⟩ []) := rfl
  rw [work_of_not_isOver [] (by rw [hresumed, hover]; exact Bool.false_ne_true), hresumed] at hstep
  exact runAmid_of_step hstep

/-- A cancellation that is due wakes a write. -/
theorem runAmid_cancel (hdue : ∃ t, cancelAt = some t ∧ t ≤ d.now) :
    (lone d cancelled cancelAt [] [⟨0, call⟩]).runAmid σ others (n + 1) =
      (lone { d with service := others n d.service } true none [⟨0, call⟩] []).runAmid
        σ others n := by
  have hstep : (lone d cancelled cancelAt [] [⟨0, call⟩]).step σ =
      some (lone d cancelled cancelAt [] [⟨0, call⟩]).cancel := by
    unfold step
    exact congrArg some (if_pos (isDue_iff.mpr hdue))
  rw [runAmid_of_step hstep]
  rfl

/-- If none is due, time passes. -/
theorem runAmid_pass {instant : Nat} (hdue : ∀ t, cancelAt = some t → d.now < t)
    (hnext : (lone d cancelled cancelAt [] [⟨0, call⟩]).nextInstant ⟨0, call⟩ = instant) :
    (lone d cancelled cancelAt [] [⟨0, call⟩]).runAmid σ others (n + 1) =
      (lone { d.passTo instant with service := others n (d.passTo instant).service } cancelled
        cancelAt ([⟨0, call⟩].takeWhile fun j : Job => j.wakeAt ≤ instant)
        ([⟨0, call⟩].dropWhile fun j : Job => j.wakeAt ≤ instant)).runAmid σ others n := by
  have hnone : ¬ (lone d cancelled cancelAt [] [⟨0, call⟩]).isDue = true := fun hdue' => by
    obtain ⟨t, ht, hpast⟩ := isDue_iff.mp hdue'
    exact absurd (hdue t ht) (Nat.not_lt.mpr hpast)
  have hstep : (lone d cancelled cancelAt [] [⟨0, call⟩]).step σ =
      some ((lone d cancelled cancelAt [] [⟨0, call⟩]).wake ⟨0, call⟩) := by
    unfold step
    exact congrArg some (if_neg hnone)
  unfold wake at hstep
  rw [hnext] at hstep
  rw [runAmid_of_step hstep]
  rfl

section Asleep
variable {m wakeAt : Nat} (hcall : call.stage = .asleep m wakeAt)
include hcall

theorem wakeAt_of_asleep : (⟨0, call⟩ : Job).wakeAt = wakeAt := by
  rw [Job.wakeAt, Call.wakeAt?, hcall]
  rfl

/-- **Time passes to the instant at which a write wakes**, -/
theorem runAmid_wake (hnow : d.now < wakeAt) (hlater : ∀ t, cancelAt = some t → wakeAt ≤ t) :
    (lone d cancelled cancelAt [] [⟨0, call⟩]).runAmid σ others (n + 1) =
      (lone { d.passTo wakeAt with service := others n (d.passTo wakeAt).service } cancelled
        cancelAt [⟨0, call⟩] []).runAmid σ others n := by
  have hjob := wakeAt_of_asleep hcall
  have hnext : (lone d cancelled cancelAt [] [⟨0, call⟩]).nextInstant ⟨0, call⟩ = wakeAt := by
    unfold nextInstant
    rw [hjob]
    cases cancelAt with
    | none => exact Nat.max_eq_right hnow.le
    | some t =>
      have hle := hlater t rfl
      show min (max d.now wakeAt) (max d.now t) = wakeAt
      omega
  rw [runAmid_pass (fun t ht => hnow.trans_le (hlater t ht)) hnext]
  simp [hjob]

/-- or to the instant at which it is cancelled, if that comes earlier. -/
theorem runAmid_doze {t : Nat} (hnow : d.now < t) (hearly : t < wakeAt) :
    (lone d cancelled (some t) [] [⟨0, call⟩]).runAmid σ others (n + 1) =
      (lone { d.passTo t with service := others n (d.passTo t).service } cancelled (some t)
        [] [⟨0, call⟩]).runAmid σ others n := by
  have hjob := wakeAt_of_asleep hcall
  have hnext : (lone d cancelled (some t) [] [⟨0, call⟩]).nextInstant ⟨0, call⟩ = t := by
    unfold nextInstant
    rw [hjob]
    show min (max d.now wakeAt) (max d.now t) = t
    omega
  rw [runAmid_pass (fun t' ht' => (Option.some.inj ht') ▸ hnow) hnext]
  simp [hjob, hearly]

end Asleep

end Steps

/-! ## Verdicts -/

/-- **What comes of a write** that arrives at `start`, whose lock gets free at `free`, and about
which its `k`-th attempt decides: the attempts that it makes, and the crew behind it. -/
structure Verdict (settings : WriteSettings) (start free : Nat) (cancellation : Cancellation)
    (r : Request) (k : Nat) (attempts : List Attempt) (c : Crew) : Prop where
  /-- It has its lock with that attempt if the lock is free then, -/
  obtained : free ≤ tryAt settings start k →
    ¬ cancellation.Before (tryAt settings start k) →
      (∃ a, attempts = refusals settings start (k - 1) ++ [a] ∧
        a.instant = tryAt settings start k ∧ a.Obtains) ∧
      (∃ outcome, c.outcome? 0 = some outcome) ∧
      c.deployment.now = tryAt settings start k
  /-- and gives up with its last attempt if not, -/
  exhausted : tryAt settings start k < free →
    ¬ cancellation.Before (tryAt settings start k) →
      attempts = refusals settings start (attemptLimit settings) ∧
      c.outcome? 0 = some (.error (.lockContention r.target)) ∧
      c.deployment.now = tryAt settings start (attemptLimit settings)
  /-- unless it is cancelled before. -/
  cancelled : cancellation.Before (tryAt settings start k) →
    (∀ a ∈ attempts, ¬ a.Obtains) ∧ c.outcome? 0 = some (.error (.cancelled r.lockKey)) ∧
      c.deployment.now = cancellation.seenAt start

section Verdicts
variable {σ : Supply} {others : Nat → Service → Service} {settings : WriteSettings}
  {start free k : Nat} {cancellation : Cancellation} {r : Request} {d : Deployment} {n : Nat}

theorem Verdict.of_obtained {attempts : List Attempt} {c : Crew}
    (hfree : free ≤ tryAt settings start k)
    (hnot : ¬ cancellation.Before (tryAt settings start k))
    (h : (∃ a, attempts = refusals settings start (k - 1) ++ [a] ∧
        a.instant = tryAt settings start k ∧ a.Obtains) ∧
      (∃ outcome, c.outcome? 0 = some outcome) ∧
      c.deployment.now = tryAt settings start k) :
    Verdict settings start free cancellation r k attempts c where
  obtained _ _ := h
  exhausted hlt := absurd hfree (Nat.not_le.mpr hlt)
  cancelled hbefore := absurd hbefore hnot

theorem Verdict.of_exhausted {attempts : List Attempt} {c : Crew}
    (hlt : tryAt settings start k < free)
    (hnot : ¬ cancellation.Before (tryAt settings start k))
    (h : attempts = refusals settings start (attemptLimit settings) ∧
      c.outcome? 0 = some (.error (.lockContention r.target)) ∧
      c.deployment.now = tryAt settings start (attemptLimit settings)) :
    Verdict settings start free cancellation r k attempts c where
  obtained hfree := absurd hfree (Nat.not_le.mpr hlt)
  exhausted _ _ := h
  cancelled hbefore := absurd hbefore hnot

theorem Verdict.of_cancelled {attempts : List Attempt} {c : Crew}
    (hbefore : cancellation.Before (tryAt settings start k))
    (h : (∀ a ∈ attempts, ¬ a.Obtains) ∧ c.outcome? 0 = some (.error (.cancelled r.lockKey)) ∧
      c.deployment.now = cancellation.seenAt start) :
    Verdict settings start free cancellation r k attempts c where
  obtained _ hnot := absurd hbefore hnot
  exhausted _ hnot := absurd hbefore hnot
  cancelled _ := h

/-- **A sleeping write whose cancellation is due** gives up at once. -/
theorem runAmid_due (others : Nat → Service → Service) (n : Nat) {t m wakeAt : Nat}
    (hdue : t ≤ d.now) :
    ∃ last, (lone d false (some t) [] [⟨0, ⟨r, .asleep m wakeAt⟩⟩]).runAmid σ others (n + 2) =
        ([], last) ∧
      last.outcome? 0 = some (.error (.cancelled r.lockKey)) ∧ last.deployment.now = d.now := by
  obtain ⟨hresume, htries⟩ :=
    Call.resume_roused σ d.now (others (n + 1) d.service) r m wakeAt
  obtain ⟨last, hrun, hover⟩ := runAmid_over (d := { d with service := others (n + 1) d.service })
    others n none hresume rfl
  rw [runAmid_cancel ⟨t, rfl, hdue⟩, hrun, htries]
  exact ⟨last, rfl, hover⟩

/-- **A sleeping write that is cancelled before it wakes** gives up when that falls due. -/
theorem runAmid_cancelled (others : Nat → Service → Service) (n : Nat) {t m wakeAt : Nat}
    (hnow : d.now ≤ t) (hearly : t < wakeAt) :
    ∃ last, (lone d false (some t) [] [⟨0, ⟨r, .asleep m wakeAt⟩⟩]).runAmid σ others (n + 3) =
        ([], last) ∧
      last.outcome? 0 = some (.error (.cancelled r.lockKey)) ∧ last.deployment.now = t := by
  rcases hnow.eq_or_lt with hdue | hlater
  · obtain ⟨last, hrun, hout, hend⟩ := runAmid_due (d := d) (r := r) (t := t) (m := m) (σ := σ)
      others (n + 1) hdue.ge
    exact ⟨last, hrun, hout, hend.trans hdue⟩
  · rw [runAmid_doze rfl hlater hearly]
    exact runAmid_due others n (Nat.le_refl t)

/-- **A sleeping write that is cancelled** has never had its lock. -/
theorem verdict_of_asleep {t m : Nat} (hm : m < k) (hstart : start ≤ d.now) (hnow : d.now ≤ t)
    (hearly : t < tryAt settings start (m + 1)) :
    let result := (lone d false (some t) []
      [⟨0, ⟨r, .asleep m (tryAt settings start (m + 1))⟩⟩]).runAmid σ others (n + 3)
    Verdict settings start free (.due t) r k (refusals settings start m ++ result.1)
      result.2 := by
  obtain ⟨last, hrun, hlast, hend⟩ := runAmid_cancelled (d := d) (r := r) (σ := σ) (m := m) others n
    hnow hearly
  rw [hrun]
  refine .of_cancelled (hearly.trans_le (Call.tryAt_mono settings start hm)) ⟨?_, hlast, ?_⟩
  · rw [List.append_nil]
    exact fun a => Call.not_obtains_of_mem_refusals settings start
  · exact hend.trans (Nat.max_eq_left (hstart.trans hnow)).symm

/-- **An attempt where the lock is free** decides. -/
theorem verdict_of_free {m : Nat} {call : Call} (hk : Decides settings start free k)
    (hm : m < k) (hd : d.Awaits settings r.lockKey free)
    (hnow : tryAt settings start (m + 1) = d.now)
    (hcall : Call.Leads σ d.now false d.service call [] d.service ⟨r, .attempting (m + 1)⟩)
    (hnot : ¬ cancellation.Before d.now) (hfree : free ≤ d.now) :
    let result := (lone d false cancellation.dueAt? [⟨0, call⟩] []).runAmid σ others (n + 1)
    Verdict settings start free cancellation r k
      (refusals settings start m ++ result.1) result.2 := by
  have hthis : k = m + 1 := hk.eq (Nat.succ_pos m) hm (hnow ▸ hfree)
  have hlocked : d.service.locks.isLocked d.now r.lockKey = false :=
    (hd.frees d.now (Nat.le_refl _)).trans (decide_eq_false (Nat.not_lt.mpr hfree))
  obtain ⟨hover, ⟨outcome, hout⟩, a, htries, hinstant, hobtains⟩ :=
    Call.resume_granted hcall hlocked
  obtain ⟨last, hrun, hlast, hend⟩ := runAmid_over others n cancellation.dueAt? rfl hover
  subst hthis
  rw [hrun, htries]
  refine .of_obtained (hnow ▸ hfree) (hnow ▸ hnot) ⟨⟨a, rfl, ?_, hobtains⟩, ⟨outcome, ?_⟩, ?_⟩
  · exact hinstant.trans hnow.symm
  · exact hlast.trans hout
  · exact hend.trans hnow.symm

/-- **The last attempt** decides if all have been in vain. -/
theorem verdict_of_last {m : Nat} {call : Call} (hk : Decides settings start free k)
    (hinstant : tryAt settings start (attemptLimit settings) = d.now)
    (hresume : call.resume σ d.now false d.service =
      (d.service, ⟨r, .finished (.error (.lockContention r.target))⟩))
    (htries : refusals settings start m ++ call.resumeTries σ d.now false d.service =
      refusals settings start (attemptLimit settings))
    (hnot : ¬ cancellation.Before d.now) (hlocked : d.now < free) :
    let result := (lone d false cancellation.dueAt? [⟨0, call⟩] []).runAmid σ others (n + 1)
    Verdict settings start free cancellation r k
      (refusals settings start m ++ result.1) result.2 := by
  rw [← hinstant] at hlocked hnot
  have hthis : k = attemptLimit settings := hk.last.resolve_left fun hfree =>
    absurd (hfree.trans (Call.tryAt_mono settings start hk.le)) (Nat.not_le.mpr hlocked)
  obtain ⟨last, hrun, hlast, hend⟩ := runAmid_over others n cancellation.dueAt? hresume rfl
  rw [hrun]
  refine .of_exhausted (hthis ▸ hlocked) (hthis ▸ hnot) ⟨htries, hlast, ?_⟩
  exact hend.trans hinstant.symm

section Run
variable (hothers : ∀ i, Considerate r.lockKey (others i))
  (hfits : settings.backoff * (attemptLimit settings - 1) / 1000 < twoTo 64)
  (hk : Decides settings start free k)
include hothers hfits hk

/-- **A write that goes on** comes to its verdict: by induction on the attempts that are left. -/
theorem verdict_run {m : Nat} {call : Call} (hd : d.Awaits settings r.lockKey free) (hm : m < k)
    (hnow : tryAt settings start (m + 1) = d.now)
    (hcall : Call.Leads σ d.now false d.service call [] d.service ⟨r, .attempting (m + 1)⟩)
    (hcancel : ∀ t, cancellation = .due t → d.now ≤ t) (halready : cancellation ≠ .already)
    (hn : 2 * (attemptLimit settings - m) + 2 ≤ n) :
    let result := (lone d false cancellation.dueAt? [⟨0, call⟩] []).runAmid σ others n
    Verdict settings start free cancellation r k
      (refusals settings start m ++ result.1) result.2 := by
  induction hleft : attemptLimit settings - m using Nat.strong_induction_on
    generalizing m n d call with
  | _ left ih =>
  have hle := hk.le
  obtain ⟨n, rfl⟩ : ∃ n', n = n' + 4 := ⟨n - 4, by omega⟩
  have hnot := Cancellation.not_before hcancel halready
  rcases Nat.lt_or_ge d.now free with hlocked | hfree
  · obtain ⟨i, hi, hinstant, htries, hend⟩ := Call.resume_refused hd.settings_eq
      (Call.lastTry_attemptLimit settings hfits)
      ((hd.frees d.now (Nat.le_refl _)).trans (decide_eq_true hlocked)) (Nat.succ_pos m)
      (hm.trans_le hle) hnow hcall
    rw [Call.spent_attemptLimit] at hend
    rcases hend with ⟨rfl, hresume⟩ | ⟨hlt, hlater, hresume⟩
    · exact verdict_of_last hk hinstant hresume htries hnot hlocked
    · have hik := hk.lt hlt (hinstant ▸ hlocked)
      -- others have their turn before the write sleeps on
      obtain ⟨d', hrun, hd', hnow'⟩ : ∃ d', { d with service := others (n + 3) d.service } = d' ∧
          d'.Awaits settings r.lockKey free ∧ d.now = d'.now :=
        ⟨_, rfl, hd.disturbed (hothers (n + 3)), rfl⟩
      rw [runAmid_asleep hresume rfl, hrun]
      simp only [← List.append_assoc]
      rw [show refusals settings start m ++ _ = _ from htries]
      rw [hnow'] at hlater hcancel hnow
      by_cases hearly : ∃ t, cancellation = .due t ∧ t < tryAt settings start (i + 1)
      · -- the cancellation comes before the next attempt
        obtain ⟨t, rfl, hearly⟩ := hearly
        refine verdict_of_asleep hik ?_ (hcancel t rfl) hearly
        exact (Call.tryAt_mono settings start (Nat.zero_le (m + 1))).trans hnow.le
      · have hlater' : ∀ t, cancellation = .due t → tryAt settings start (i + 1) ≤ t :=
          fun t ht => Nat.not_lt.mp fun hlt => hearly ⟨t, ht, hlt⟩
        have hstage : Call.stage ⟨r, .asleep i (tryAt settings start (i + 1))⟩ =
          .asleep i (tryAt settings start (i + 1)) := rfl
        rw [runAmid_wake hstage hlater (Cancellation.le_of_dueAt? hlater')]
        exact ih _ (by omega) ((hd'.passTo hlater.le).disturbed (hothers (n + 2))) hik rfl
          (Call.leads_asleep (Nat.le_refl _)) hlater' (by omega) rfl
  · exact verdict_of_free hk hm hd hnow hcall hnot hfree

end Run

end Verdicts

end Crew

namespace Deployment

/-! ## The schedule of a write -/

/-- **A write on schedule**: it arrives at a deployment, among others, and may be cancelled. -/
structure OnSchedule (σ : Supply) (others : Nat → Service → Service) (d : Deployment)
    (cancellation : Cancellation) (r : Request) : Prop where
  /-- Waits grow by the backoff, and none is longer than a timer runs, -/
  instants : ∀ k, tryAt d.service.settings d.now k =
    d.now + ∑ j ∈ Finset.range k, min (d.service.settings.backoff * j) Timer.longest
  /-- which does not matter up to that length. -/
  usual : ∀ k, d.service.settings.backoff * (k - 1) ≤ Timer.longest →
    tryAt d.service.settings d.now k = d.now + d.service.settings.backoff * k * (k - 1) / 2
  /-- Where others do nothing, this is how the deployment performs the write. -/
  alone : others = (fun _ s => s) → d.perform? σ cancellation r =
    ((d.performAmid σ others cancellation r).2.outcome? 0).map
      (·, (d.performAmid σ others cancellation r).2.deployment)
  decided : ∃ k, Decides d.service.settings d.now (d.service.locks.freeFrom r.lockKey) k
  /-- The attempt that decides says what comes of the write. -/
  verdict : ∀ k, Decides d.service.settings d.now (d.service.locks.freeFrom r.lockKey) k →
    Crew.Verdict d.service.settings d.now (d.service.locks.freeFrom r.lockKey) cancellation r k
      (d.performAmid σ others cancellation r).1 (d.performAmid σ others cancellation r).2

section Schedule
variable {σ : Supply} {others : Nat → Service → Service} {d : Deployment} {r : Request}
  (hr : r.needsLock = true) (hv : r.check = .ok ())
include hr hv

/-- A write that is cancelled before it arrives gives up with its first attempt. -/
theorem verdict_of_already {k free : Nat} :
    Crew.Verdict d.service.settings d.now free .already r k
      (d.performAmid σ others .already r).1 (d.performAmid σ others .already r).2 := by
  obtain ⟨hresume, htries⟩ := Call.resume_cancelled (σ := σ) (s := d.service)
    (Call.leads_ofRequest hr hv : Call.Leads σ d.now _ _ _ _ _ _)
  obtain ⟨last, hrun, hlast, hend⟩ := Crew.runAmid_over others
    (2 * 1 * (attemptLimit d.service.settings + 1) + 1) none hresume rfl
  have hperform : d.performAmid σ others .already r = _ := hrun
  rw [hperform, htries]
  refine .of_cancelled trivial ⟨?_, hlast, hend⟩
  rintro a ha ⟨token, locks, hgranted⟩
  rw [List.mem_singleton.mp ha] at hgranted
  cases hgranted

/-- **A write keeps to its schedule**, whatever others do that leave the entry of its key alone. -/
theorem onSchedule (hothers : ∀ i, Considerate r.lockKey (others i)) {cancellation : Cancellation}
    (hcancel : cancellation.Timely d.now)
    (hfits : d.service.settings.backoff * (attemptLimit d.service.settings - 1) / 1000 <
      twoTo 64) : d.OnSchedule σ others cancellation r where
  instants := Call.tryAt_eq_sum _ _
  usual := Call.tryAt_eq _ _
  alone := by
    rintro rfl
    exact d.perform?_eq_performAmid σ cancellation r
  decided := Call.exists_decides _ _ _
  verdict k hk := by
    by_cases halready : cancellation = .already
    · rw [halready]
      exact verdict_of_already hr hv
    · have hbegin : Crew.ofRequests d cancellation false 1 [r] =
          Crew.lone d false cancellation.dueAt? [⟨0, .ofRequest r⟩] [] := by
        cases cancellation with
        | never | due => rfl
        | already => exact absurd rfl halready
      have hdue : ∀ t, cancellation = .due t → d.now ≤ t := by
        rintro t rfl
        exact hcancel
      have hverdict := Crew.verdict_run (σ := σ) (k := k) hothers hfits hk
        ⟨rfl, d.freesAt_freeFrom _⟩ hk.pos (Call.tryAt_one _ _) (Call.leads_ofRequest hr hv) hdue halready
        (show 2 * (attemptLimit d.service.settings - 0) + 2 ≤
          2 * 1 * (attemptLimit d.service.settings + 1) + 2 by omega)
      rw [performAmid, hbegin]
      exact hverdict

end Schedule

/-- A deployment where a product is locked up to an instant. -/
def held (settings : WriteSettings) (free : Nat) : Deployment :=
  let d := fresh settings default
  let locks := ⟨.put .empty (Product.lockKey "prod_1") ⟨1, free⟩, 1⟩
  { d with service := { d.service with locks } }

/-- Attempts are made at 0, 10 and 30, and a cancellation at 15 comes in between. -/
theorem onSchedule_held :
    Request.needsLock (.remove "prod_1") = true ∧ Request.check (.remove "prod_1") = .ok () ∧
      (∀ _ : Nat, Considerate (Product.lockKey "prod_1") fun s => { s with live := .empty }) ∧
      Cancellation.Timely 0 (.due 15) ∧
      (held { attempts := 3, backoff := 10 } 20).OnSchedule .sample
        (fun _ s => { s with live := .empty }) (.due 15) (.remove "prod_1") :=
  have hothers : ∀ _ : Nat, Considerate (Request.lockKey (.remove "prod_1")) fun s =>
    { s with live := .empty } := fun _ => ⟨fun _ => rfl, fun _ => rfl⟩
  ⟨rfl, rfl, hothers, Nat.zero_le 15,
    onSchedule rfl rfl hothers (Nat.zero_le 15) (by decide)⟩

/-- **A wait of more than thirty years is over too early**: the last attempt is not made when the
waits before it say. -/
theorem early_held :
    let settings : WriteSettings := { attempts := 2, backoff := 1099511627776 }
    let d := held settings 35184372088832
    attemptLimit settings = 2 ∧ settings.backoff * (2 - 1) / 1000 < twoTo 64 ∧
      d.now + settings.backoff * 2 * (2 - 1) / 2 < d.service.locks.freeFrom "product:prod_1" ∧
      ∃ d', d.perform? .sample .never (.remove "prod_1") =
          some (.error (.lockContention "prod_1"), d') ∧
        d'.now ≠ d.now + settings.backoff * 2 * (2 - 1) / 2 :=
  ⟨rfl, by decide, by decide, _, rfl, by decide⟩

end Deployment

end CatalogChain
