import CatalogChain.Proofs.Service.Direct
import Mathlib.Algebra.BigOperators.Intervals
import Mathlib.Algebra.BigOperators.Ring.Finset

/-!
# Attempts at a lock

A call that finds its lock held tries again, each time after a wait that is longer by the backoff,
so the instants of its attempts are known from the start (`Call.tryAt`).  What a call tries while it
goes on is kept beside it as a list of attempts (`Call.resumeTries`).

* `Call.leads_refused`: a call that tries in vain goes on with the attempts that follow at the same
  instant, until one is the last or the next one is later;
* `Call.resume_granted`, `Call.resume_refused`, `Call.resume_cancelled`: what becomes of a call that
  goes on where its lock is free, or held, or where it is cancelled.
-/

namespace CatalogChain

/-- **An attempt at a lock**: when it was made and what came of it. -/
structure Attempt where
  instant : Nat
  answer : Acquisition

/-- The attempt got its owner the lock. -/
def Attempt.Obtains (a : Attempt) : Prop := ∃ token locks, a.answer = .granted token locks

namespace Call

/-! ## The schedule -/

/-- **The instant of the k-th attempt** of a call that arrives at an instant.  A timer runs between
any two attempts. -/
def tryAt (settings : WriteSettings) (start : Nat) : (k : Nat) → Nat
  | 0 => start
  | k + 1 => Timer.expiry (tryAt settings start k) (settings.backoff * k)

/-- The first `k` attempts of a call, all in vain. -/
def refusals (settings : WriteSettings) (start k : Nat) : List Attempt :=
  (List.range k).map fun j => ⟨tryAt settings start (j + 1), .refused⟩

/-- **The attempt that decides** about a call whose lock gets free at an instant: the first one that
is made no earlier, or the last one. -/
structure Decides (settings : WriteSettings) (start free k : Nat) : Prop where
  pos : 1 ≤ k
  le : k ≤ attemptLimit settings
  vain : ∀ j, 1 ≤ j → j < k → tryAt settings start j < free
  last : free ≤ tryAt settings start k ∨ k = attemptLimit settings

section Schedule
variable (settings : WriteSettings) (start : Nat)

theorem tryAt_one : tryAt settings start 1 = start := by
  show start + min (settings.backoff * 0) Timer.longest = start
  rw [Nat.mul_zero, Nat.zero_min, Nat.add_zero]

theorem tryAt_mono {j k : Nat} (h : j ≤ k) : tryAt settings start j ≤ tryAt settings start k := by
  induction h with
  | refl => exact Nat.le_refl _
  | step _ ih => exact ih.trans (Timer.le_expiry ..)

theorem refusals_succ (k : Nat) : refusals settings start (k + 1) =
    refusals settings start k ++ [⟨tryAt settings start (k + 1), .refused⟩] := by
  rw [refusals, refusals, List.range_succ, List.map_append, List.map_singleton]

theorem not_obtains_of_mem_refusals {k : Nat} {a : Attempt}
    (h : a ∈ refusals settings start k) : ¬ a.Obtains := by
  obtain ⟨j, -, rfl⟩ := List.mem_map.mp h
  rintro ⟨token, locks, h⟩
  cases h

/-- **The instants of the attempts** are sums of waits, none of them longer than a timer runs. -/
theorem tryAt_eq_sum (k : Nat) : tryAt settings start k =
    start + ∑ j ∈ Finset.range k, min (settings.backoff * j) Timer.longest := by
  induction k with
  | zero => rfl
  | succ k ih =>
    rw [tryAt, ih, Timer.expiry, Finset.sum_range_succ, Nat.add_assoc]

/-- As long as no wait is too long for a timer, the instants go up in a quadratic way. -/
theorem tryAt_eq (k : Nat) (h : settings.backoff * (k - 1) ≤ Timer.longest) :
    tryAt settings start k = start + settings.backoff * k * (k - 1) / 2 := by
  have hwait : ∀ j ∈ Finset.range k,
      min (settings.backoff * j) Timer.longest = settings.backoff * j := fun j hj => by
    have hlt := Finset.mem_range.mp hj
    exact Nat.min_eq_left ((Nat.mul_le_mul_left _ (by omega)).trans h)
  rw [tryAt_eq_sum, Finset.sum_congr rfl hwait, ← Finset.mul_sum, Nat.mul_assoc,
    ← Finset.sum_range_id_mul_two, ← Nat.mul_assoc, Nat.mul_div_cancel _ Nat.two_pos]

/-- **The last attempt of a call** if all are in vain: every wait before it can be counted, and it
is the last one allowed, or the wait behind it cannot be counted. -/
structure LastTry (settings : WriteSettings) (last : Nat) : Prop where
  pos : 1 ≤ last
  le : last ≤ attemptLimit settings
  fits : settings.backoff * (last - 1) / 1000 < twoTo 64
  breaks : last < attemptLimit settings → wait? settings last = none

/-- Where all waits can be counted, the last attempt is the last one allowed. -/
theorem lastTry_attemptLimit
    (h : settings.backoff * (attemptLimit settings - 1) / 1000 < twoTo 64) :
    LastTry settings (attemptLimit settings) where
  pos := attemptLimit_pos settings
  le := Nat.le_refl _
  fits := h
  breaks hlt := absurd hlt (Nat.lt_irrefl _)

/-- Some attempt decides. -/
theorem exists_decides (free : Nat) : ∃ k, Decides settings start free k := by
  have hpos := attemptLimit_pos settings
  have hlast : ∃ k, 1 ≤ k ∧ (free ≤ tryAt settings start k ∨ k = attemptLimit settings) :=
    ⟨_, hpos, .inr rfl⟩
  classical
  refine ⟨Nat.find hlast, (Nat.find_spec hlast).1, Nat.find_min' hlast ⟨hpos, .inr rfl⟩,
    fun j hj hlt => ?_, (Nat.find_spec hlast).2⟩
  have hnot := Nat.find_min hlast hlt
  rw [not_and, not_or, Nat.not_le] at hnot
  exact (hnot hj).1

variable {settings start} {free k m : Nat} (h : Decides settings start free k)
include h

/-- An attempt that is not the last and comes too early does not decide. -/
theorem Decides.lt (hm : m < attemptLimit settings) (hearly : tryAt settings start m < free) :
    m < k := by
  by_contra hle
  rcases h.last with hfree | hlast
  · have := tryAt_mono settings start (Nat.not_lt.mp hle)
    omega
  · omega

/-- The first attempt that does not come too early decides. -/
theorem Decides.eq (hm : 1 ≤ m) (hmk : m ≤ k) (hfree : free ≤ tryAt settings start m) : k = m := by
  by_contra hne
  have := h.vain m hm (by omega)
  omega

end Schedule

/-! ## What a call tries -/

/-- The attempt that a call makes with its next step, if it makes one. -/
def tries (now : Nat) (cancelled : Bool) (s : Service) (c : Call) : List Attempt :=
  match c.stage with
  | .attempting _ => [⟨now, s.locks.request cancelled now c.request.lockKey s.settings.lockTtl⟩]
  | _ => []

/-- The attempts of a call that goes on for at most `n` steps (`Call.settle`). -/
def settleTries (σ : Supply) (now : Nat) (cancelled : Bool) :
    (n : Nat) → Service → Call → List Attempt
  | 0, _, _ => []
  | n + 1, s, c =>
    if c.isSuspended now cancelled then []
    else
      let (s', c') := c.step σ now cancelled s
      c.tries now cancelled s ++ settleTries σ now cancelled n s' c'

/-- **The attempts of a call** that goes on at one instant (`Call.resume`). -/
def resumeTries (σ : Supply) (now : Nat) (cancelled : Bool) (s : Service) (c : Call) :
    List Attempt :=
  settleTries σ now cancelled (longestRun s.settings) s c

/-- **A call gets from one point to a later one** at one instant, and makes some attempts. -/
inductive Leads (σ : Supply) (now : Nat) (cancelled : Bool) :
    Service → Call → List Attempt → Service → Call → Prop
  | rest (s : Service) (c : Call) : Leads σ now cancelled s c [] s c
  | step {s s' : Service} {c c' : Call} {as : List Attempt}
      (hs : c.isSuspended now cancelled = false)
      (h : Leads σ now cancelled (c.step σ now cancelled s).1 (c.step σ now cancelled s).2 as
        s' c') :
      Leads σ now cancelled s c (c.tries now cancelled s ++ as) s' c'

variable {σ : Supply} {now : Nat} {cancelled : Bool} {s s' : Service} {c c' : Call}
  {as : List Attempt}

theorem settleTries_succ (n : Nat) : settleTries σ now cancelled (n + 1) s c =
    if c.isSuspended now cancelled then []
    else c.tries now cancelled s ++ settleTries σ now cancelled n (c.step σ now cancelled s).1
      (c.step σ now cancelled s).2 := rfl

theorem settleTries_of_isSuspended (h : c.isSuspended now cancelled = true) (n : Nat) :
    settleTries σ now cancelled n s c = [] := by
  cases n with
  | zero => rfl
  | succ n => rw [settleTries_succ, if_pos h]

theorem isSuspended_of_isOver (h : c.isOver = true) (now : Nat) (cancelled : Bool) :
    c.isSuspended now cancelled = true := by
  unfold isOver at h
  unfold isSuspended
  split at h
  · next hs => rw [hs]
  · next hs => rw [hs]
  · cases h

theorem Leads.trans {bs : List Attempt} {s'' : Service} {c'' : Call}
    (h : Leads σ now cancelled s c as s' c') (h' : Leads σ now cancelled s' c' bs s'' c'') :
    Leads σ now cancelled s c (as ++ bs) s'' c'' := by
  induction h with
  | rest => exact h'
  | step hs _ ih =>
    rw [List.append_assoc]
    exact .step hs (ih h')

/-- A step that is known. -/
theorem Leads.one (hs : c.isSuspended now cancelled = false)
    (hstep : c.step σ now cancelled s = (s', c')) :
    Leads σ now cancelled s c (c.tries now cancelled s) s' c' := by
  have hrest : Leads σ now cancelled (c.step σ now cancelled s).1 (c.step σ now cancelled s).2 []
      s' c' := by
    rw [hstep]
    exact .rest s' c'
  exact List.append_nil (c.tries now cancelled s) ▸ .step hs hrest

/-- **A call that goes on until it is suspended** gets past every point to which it leads. -/
theorem Leads.settle (h : Leads σ now cancelled s c as s' c') {n : Nat}
    (hn : (c.settle σ now cancelled n s).2.isSuspended now cancelled = true) :
    ∃ m, c.settle σ now cancelled n s = c'.settle σ now cancelled m s' ∧
      settleTries σ now cancelled n s c = as ++ settleTries σ now cancelled m s' c' := by
  induction h generalizing n with
  | rest s c => exact ⟨n, rfl, rfl⟩
  | @step s s' c c' as hs _ ih =>
    cases n with
    | zero => exact absurd hn (by rw [show (c.settle σ now cancelled 0 s).2 = c from rfl, hs]; simp)
    | succ n =>
      rw [settle_step hs] at hn ⊢
      obtain ⟨m, hsettle, htries⟩ := ih hn
      refine ⟨m, hsettle, ?_⟩
      rw [settleTries_succ, hs, if_neg Bool.false_ne_true, htries, List.append_assoc]

/-- A call that leads to a point at which it is suspended gets there. -/
theorem Leads.resume (h : Leads σ now cancelled s c as s' c')
    (hs : c'.isSuspended now cancelled = true) :
    c.resume σ now cancelled s = (s', c') ∧ resumeTries σ now cancelled s c = as := by
  obtain ⟨m, hsettle, htries⟩ := h.settle (isSuspended_resume (c := c))
  rw [settle_of_isSuspended hs] at hsettle
  rw [settleTries_of_isSuspended hs, List.append_nil] at htries
  exact ⟨hsettle, htries⟩

/-! ## Behind the lock -/

/-- A stage at which a call needs no lock any more, and goes on to its outcome. -/
def Behind (c : Call) : Prop :=
  match c.stage with
  | .arrived | .attempting _ | .asleep .. | .broken => False
  | _ => True

theorem behind_conclude (c : Call) (lock : Option Token) (outcome : Outcome) :
    (c.conclude lock outcome).Behind := by
  cases lock <;> trivial

theorem Behind.step (h : c.Behind) : (c.step σ now cancelled s).2.Behind := by
  have hmoves := step_moves σ now cancelled s c
  generalize c.step σ now cancelled s = p at hmoves
  obtain ⟨s', c'⟩ := p
  cases hmoves with
  | invalid hs | draft hs | seek hs | grant hs | retry hs | crash hs | despair hs | wake hs =>
    rw [Behind, hs] at h
    exact h.elim
  | give hs =>
    rcases hs with hs | ⟨wakeAt, hs⟩ <;> rw [Behind, hs] at h <;> exact h.elim
  | doze | ended => exact h
  | reject | publish => exact c.behind_conclude _ _
  | missing | conflict | revise | bury | record | commit | release => trivial

theorem Behind.tries (h : c.Behind) : c.tries now cancelled s = [] := by
  unfold Call.tries
  split
  · next hs =>
    rw [Behind, hs] at h
    exact h.elim
  · rfl

theorem Behind.settle (h : c.Behind) (n : Nat) : (c.settle σ now cancelled n s).2.Behind :=
  settle_induction (Q := fun _ c => c.Behind) (fun _ _ _ hc => hc.step) h n

theorem Behind.settleTries (h : c.Behind) (n : Nat) : settleTries σ now cancelled n s c = [] := by
  induction n generalizing s c with
  | zero => rfl
  | succ n ih =>
    rw [settleTries_succ]
    split_ifs
    · rfl
    · rw [h.tries, ih h.step, List.append_nil]

/-- A call behind the lock that is suspended has its outcome. -/
theorem Behind.outcome? (h : c.Behind) (hs : c.isSuspended now cancelled = true) :
    c.isOver = true ∧ ∃ outcome, c.outcome? = some outcome := by
  obtain ⟨request, stage⟩ := c
  cases stage with
  | finished outcome => exact ⟨rfl, outcome, rfl⟩
  | arrived | attempting | asleep | broken => exact h.elim
  | reading | appending | committing | publishing | releasing => cases hs

/-! ## What comes of an attempt -/

section Going
variable {r : Request} {k : Nat}

theorem leads_ofRequest (hr : r.needsLock = true) (hv : r.check = .ok ()) :
    Leads σ now cancelled s (ofRequest r) [] s ⟨r, .attempting 1⟩ :=
  .one rfl (step_of_needsLock hr hv)

theorem leads_asleep {wakeAt : Nat} (h : wakeAt ≤ now) :
    Leads σ now false s ⟨r, .asleep k wakeAt⟩ [] s ⟨r, .attempting (k + 1)⟩ := by
  have hnot : ¬ now < wakeAt := Nat.not_lt.mpr h
  refine .one ?_ ?_
  · simp [isSuspended, hnot]
  · simp [step, hnot, goto]

/-- **Where the lock is free**, a call that tries for it gets it and has its outcome. -/
theorem resume_granted (h : Leads σ now false s c [] s ⟨r, .attempting k⟩)
    (hfree : s.locks.isLocked now r.lockKey = false) :
    (c.resume σ now false s).2.isOver = true ∧
      (∃ outcome, (c.resume σ now false s).2.outcome? = some outcome) ∧
      ∃ a : Attempt, resumeTries σ now false s c = [a] ∧ a.instant = now ∧ a.Obtains := by
  obtain ⟨token, locks, hgrant⟩ : ∃ token locks, s.locks.request false now r.lockKey
      s.settings.lockTtl = .granted token locks :=
    ⟨_, _, LockTable.request_eq_granted_iff.mpr ⟨rfl, hfree, rfl, rfl⟩⟩
  have hstep : step σ now false s ⟨r, .attempting k⟩ =
      ({ s with locks }, ⟨r, .reading token⟩) := by
    show attempt now false s ⟨r, .attempting k⟩ k = _
    rw [attempt, hgrant]
    rfl
  have htries : tries now false s ⟨r, .attempting k⟩ = [⟨now, .granted token locks⟩] :=
    congrArg (fun answer => [(⟨now, answer⟩ : Attempt)]) hgrant
  have hread : Behind ⟨r, .reading token⟩ := trivial
  obtain ⟨m, hsettle, hall⟩ := (h.trans (.one rfl hstep)).settle (isSuspended_resume (c := c))
  have hsuspended : (c.resume σ now false s).2.isSuspended now false = true := isSuspended_resume
  rw [hread.settleTries, htries] at hall
  have hend : (c.resume σ now false s).2.Behind := by
    rw [resume, hsettle]
    exact hread.settle m
  obtain ⟨hover, hout⟩ := hend.outcome? hsuspended
  exact ⟨hover, hout, _, hall, rfl, token, locks, rfl⟩

/-- **A call that is cancelled** and tries for its lock gives up. -/
theorem resume_cancelled (h : Leads σ now true s c [] s ⟨r, .attempting k⟩) :
    c.resume σ now true s = (s, ⟨r, .finished (.error (.cancelled r.lockKey))⟩) ∧
      resumeTries σ now true s c = [⟨now, .cancelled⟩] :=
  (h.trans (.one rfl rfl)).resume rfl

/-- One that is cancelled and sleeps gives up without another attempt. -/
theorem resume_roused (σ : Supply) (now : Nat) (s : Service) (r : Request) (k wakeAt : Nat) :
    resume σ now true s ⟨r, .asleep k wakeAt⟩ =
        (s, ⟨r, .finished (.error (.cancelled r.lockKey))⟩) ∧
      resumeTries σ now true s ⟨r, .asleep k wakeAt⟩ = [] := by
  have hsuspended : isSuspended now true ⟨r, .asleep k wakeAt⟩ = false := rfl
  exact (Leads.one hsuspended rfl).resume rfl

variable {settings : WriteSettings} {start : Nat}

theorem tries_of_locked (hlocked : s.locks.isLocked now r.lockKey = true)
    (hnow : tryAt settings start k = now) :
    tries now false s ⟨r, .attempting k⟩ = [⟨tryAt settings start k, .refused⟩] := by
  simp [tries, LockTable.request, LockTable.acquire, hlocked, hnow]

/-- A call behind its last attempt: it has given up, or it breaks off. -/
def spent (settings : WriteSettings) (r : Request) (last : Nat) : Call :=
  ⟨r, if last < attemptLimit settings then .broken
    else .finished (.error (.lockContention r.target))⟩

theorem spent_attemptLimit (settings : WriteSettings) (r : Request) :
    spent settings r (attemptLimit settings) =
      ⟨r, .finished (.error (.lockContention r.target))⟩ := by
  rw [spent, if_neg (Nat.lt_irrefl _)]

theorem isOver_spent (settings : WriteSettings) (r : Request) (last : Nat) :
    (spent settings r last).isOver = true := by
  unfold spent
  split_ifs <;> rfl

section Held
variable {last : Nat} (hsettings : s.settings = settings) (hlast : LastTry settings last)
  (hlocked : s.locks.isLocked now r.lockKey = true)
include hsettings hlast hlocked

theorem step_of_locked (hle : k ≤ last) (hnow : tryAt settings start k = now) :
    step σ now false s ⟨r, .attempting k⟩ =
      (s, if k < last then ⟨r, .asleep k (tryAt settings start (k + 1))⟩
        else spent settings r last) := by
  have hrefused : s.locks.request false now r.lockKey s.settings.lockTtl = .refused := by
    simp [LockTable.request, LockTable.acquire, hlocked]
  have hlimit := hlast.le
  show attempt now false s ⟨r, .attempting k⟩ k = _
  rw [attempt, hrefused, hsettings]
  simp only
  rcases hle.eq_or_lt with rfl | hlt
  · rw [if_neg (Nat.lt_irrefl k), spent]
    split_ifs with hmore
    · rw [sleep, hlast.breaks hmore]
      rfl
    · rfl
  · have hwaits : settings.backoff * k ≤ settings.backoff * (last - 1) :=
      Nat.mul_le_mul_left _ (by omega)
    have hwait : wait? settings k = some (settings.backoff * k) :=
      if_pos (Nat.lt_of_le_of_lt (Nat.div_le_div_right hwaits) hlast.fits)
    rw [if_pos hlt, if_pos (hlt.trans_le hlimit), sleep, hwait, tryAt, hnow]
    rfl

/-- **A call that tries in vain** tries again at the same instant, until its attempt is the last one
or the next one is later. -/
theorem leads_refused (hpos : 1 ≤ k) (hle : k ≤ last) (hnow : tryAt settings start k = now) :
    ∃ m as c', k ≤ m ∧ tryAt settings start m = now ∧
      refusals settings start (k - 1) ++ as = refusals settings start m ∧
      Leads σ now false s ⟨r, .attempting k⟩ as s c' ∧
      (m = last ∧ c' = spent settings r last ∨
        m < last ∧ now < tryAt settings start (m + 1) ∧
          c' = ⟨r, .asleep m (tryAt settings start (m + 1))⟩) := by
  obtain ⟨k, rfl⟩ := Nat.exists_eq_add_of_le' hpos
  induction hleft : last - (k + 1) generalizing k with
  | zero =>
    have hend : k + 1 = last := by omega
    have hstep := step_of_locked (σ := σ) hsettings hlast hlocked hle hnow
    rw [if_neg (by omega)] at hstep
    refine ⟨k + 1, _, _, Nat.le_refl _, hnow, ?_, .one rfl hstep, .inl ⟨hend, rfl⟩⟩
    rw [tries_of_locked hlocked hnow]
    exact (refusals_succ ..).symm
  | succ left ih =>
    have hstep := step_of_locked (σ := σ) hsettings hlast hlocked hle hnow
    rw [if_pos (by omega)] at hstep
    have hfirst := Leads.one (σ := σ) rfl hstep
    rw [tries_of_locked hlocked hnow] at hfirst
    by_cases hlater : now < tryAt settings start (k + 1 + 1)
    · refine ⟨k + 1, _, _, Nat.le_refl _, hnow, ?_, hfirst, .inr ⟨by omega, hlater, rfl⟩⟩
      exact (refusals_succ ..).symm
    · -- the wait is over at once
      have hnow' : tryAt settings start (k + 1 + 1) = now := by
        have := tryAt_mono settings start (Nat.le_add_right (k + 1) 1)
        omega
      obtain ⟨m, as, c', hm, hinstant, hall, hleads, hend⟩ :=
        ih (k + 1) (by omega) (by omega) hnow' (by omega)
      refine ⟨m, _ ++ ([] ++ as), c', by omega, hinstant, ?_,
        hfirst.trans ((leads_asleep hnow'.le).trans hleads), hend⟩
      rw [List.nil_append, ← List.append_assoc]
      exact (congrArg (· ++ as) (refusals_succ ..).symm).trans hall

/-- **Where the lock is held**, a call that goes on tries in vain, and then it sleeps up to its next
attempt or has made its last one. -/
theorem resume_refused (hpos : 1 ≤ k) (hle : k ≤ last) (hnow : tryAt settings start k = now)
    (h : Leads σ now false s c [] s ⟨r, .attempting k⟩) :
    ∃ m, k ≤ m ∧ tryAt settings start m = now ∧
      refusals settings start (k - 1) ++ resumeTries σ now false s c =
        refusals settings start m ∧
      (m = last ∧ c.resume σ now false s = (s, spent settings r last) ∨
        m < last ∧ now < tryAt settings start (m + 1) ∧
          c.resume σ now false s = (s, ⟨r, .asleep m (tryAt settings start (m + 1))⟩)) := by
  obtain ⟨m, as, c', hm, hinstant, hall, hleads, hend⟩ :=
    leads_refused (σ := σ) hsettings hlast hlocked hpos hle hnow
  have hrest : c'.isSuspended now false = true := by
    rcases hend with ⟨-, rfl⟩ | ⟨-, hlater, rfl⟩
    · exact isSuspended_of_isOver (isOver_spent ..) now false
    · simp [isSuspended, hlater]
  obtain ⟨hresume, htries⟩ := (h.trans hleads).resume hrest
  rw [htries, hresume]
  refine ⟨m, hm, hinstant, hall, ?_⟩
  rcases hend with ⟨hm, rfl⟩ | ⟨hlt, hlater, rfl⟩
  · exact .inl ⟨hm, rfl⟩
  · exact .inr ⟨hlt, hlater, rfl⟩

end Held

end Going

end Call

end CatalogChain
