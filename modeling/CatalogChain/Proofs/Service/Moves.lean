import CatalogChain.Service.Call
import Mathlib.Tactic.SplitIfs

/-!
# The moves of a call

`Call.Moves` lists everything that one step of a call can do, with the condition under which it
does it and with the service and the call after it.  All that is proved about calls starts from
`Call.step_moves`, so no other proof looks into the stages.

A call moves on for a bounded number of steps at one instant (`Moves.rank_lt`), and this bound is
within `longestRun`: a call that is resumed is suspended in the end (`isSuspended_resume`).
-/

namespace CatalogChain

/-- The check of what a write asks for. -/
def Request.check : Request → Check
  | create draft => draft.validate
  | update candidate => candidate.validate
  | remove _ => .ok ()

/-- Whether a write is about a product that is there already. -/
def Request.needsLock : Request → Bool
  | create _ => false
  | _ => true

namespace Call

/-- **What one step of a call can do** to the service and to the call. -/
inductive Moves (σ : Supply) (now : Nat) (cancelled : Bool) (s : Service) (c : Call) :
    Service → Call → Prop
  | invalid {v : Violation} (hs : c.stage = .arrived) (hr : c.request.check = .error v) :
      Moves σ now cancelled s c s (c.goto (.finished (.error (.ofViolation v))))
  | draft {draft : Content} (hs : c.stage = .arrived) (hr : c.request = .create draft)
      (hv : draft.validate = .ok ()) :
      Moves σ now cancelled s c (s.creation σ draft).2
        (c.goto (.appending none (s.creation σ draft).1))
  | seek (hs : c.stage = .arrived) (hr : c.request.needsLock = true)
      (hv : c.request.check = .ok ()) :
      Moves σ now cancelled s c s (c.goto (.attempting 1))
  | give {n : Nat} (hs : c.stage = .attempting n ∨ ∃ wakeAt, c.stage = .asleep n wakeAt)
      (hc : cancelled = true) : Moves σ now cancelled s c s c.abandon
  | grant {n : Nat} {token : Token} {locks : LockTable} (hs : c.stage = .attempting n)
      (hl : s.locks.request cancelled now c.request.lockKey s.settings.lockTtl =
        .granted token locks) :
      Moves σ now cancelled s c { s with locks } (c.goto (.reading token))
  | retry {n time : Nat} (hs : c.stage = .attempting n)
      (hl : s.locks.request cancelled now c.request.lockKey s.settings.lockTtl = .refused)
      (hn : n < attemptLimit s.settings) (hw : wait? s.settings n = some time) :
      Moves σ now cancelled s c s (c.goto (.asleep n (Timer.expiry now time)))
  | crash {n : Nat} (hs : c.stage = .attempting n)
      (hl : s.locks.request cancelled now c.request.lockKey s.settings.lockTtl = .refused)
      (hn : n < attemptLimit s.settings) (hw : wait? s.settings n = none) :
      Moves σ now cancelled s c s (c.goto .broken)
  | despair {n : Nat} (hs : c.stage = .attempting n)
      (hl : s.locks.request cancelled now c.request.lockKey s.settings.lockTtl = .refused)
      (hn : attemptLimit s.settings ≤ n) :
      Moves σ now cancelled s c s (c.goto (.finished (.error (.lockContention c.request.target))))
  | doze {n wakeAt : Nat} (hs : c.stage = .asleep n wakeAt) (hc : cancelled = false)
      (hw : now < wakeAt) : Moves σ now cancelled s c s c
  | wake {n wakeAt : Nat} (hs : c.stage = .asleep n wakeAt) (hc : cancelled = false)
      (hw : wakeAt ≤ now) : Moves σ now cancelled s c s (c.goto (.attempting (n + 1)))
  | missing {lock : Token} (hs : c.stage = .reading lock)
      (hp : s.live.get? c.request.target = none) :
      Moves σ now cancelled s c s (c.conclude lock (.error (.notFound c.request.target)))
  | conflict {lock : Token} {candidate current : Product} (hs : c.stage = .reading lock)
      (hr : c.request = .update candidate) (hp : s.live.get? candidate.id = some current)
      (hv : candidate.version ≠ current.version) :
      Moves σ now cancelled s c s
        (c.conclude lock (.error (.versionConflict current.id candidate.version current.version)))
  | revise {lock : Token} {candidate current : Product} (hs : c.stage = .reading lock)
      (hr : c.request = .update candidate) (hp : s.live.get? candidate.id = some current)
      (hv : candidate.version = current.version) :
      Moves σ now cancelled s c (s.revision σ current candidate).2
        (c.goto (.appending lock (s.revision σ current candidate).1))
  | bury {lock : Token} {current : Product} (hs : c.stage = .reading lock)
      (hr : ∀ candidate, c.request ≠ .update candidate)
      (hp : s.live.get? c.request.target = some current) :
      Moves σ now cancelled s c (s.deletion σ current).2
        (c.goto (.appending lock (s.deletion σ current).1))
  | record {lock : Option Token} {e recorded : Event} (hs : c.stage = .appending lock e)
      (ha : (s.log.append e).1 = .ok recorded) :
      Moves σ now cancelled s c { s with log := (s.log.append e).2 }
        (c.goto (.committing lock recorded))
  | reject {lock : Option Token} {e : Event} {fault : Fault} (hs : c.stage = .appending lock e)
      (ha : (s.log.append e).1 = .error fault) :
      Moves σ now cancelled s c { s with log := (s.log.append e).2 }
        (c.conclude lock (.error fault))
  | commit {lock : Option Token} {e : Event} (hs : c.stage = .committing lock e) :
      Moves σ now cancelled s c { s with live := s.live.apply e } (c.goto (.publishing lock e))
  | publish {lock : Option Token} {e : Event} (hs : c.stage = .publishing lock e) :
      Moves σ now cancelled s c { s with feed := s.feed.publish e } (c.conclude lock (.ok e))
  | release {lock : Token} {outcome : Outcome} (hs : c.stage = .releasing lock outcome) :
      Moves σ now cancelled s c
        { s with locks := (s.locks.releaseOwned c.request.lockKey lock).2 }
        (c.goto (.finished outcome))
  | ended (hs : c.isOver = true) : Moves σ now cancelled s c s c

variable (σ : Supply) (now : Nat) (cancelled : Bool) (s : Service) (c : Call)

theorem arrive_moves (hs : c.stage = .arrived) :
    Moves σ now cancelled s c (c.arrive σ s).1 (c.arrive σ s).2 := by
  unfold arrive
  cases hr : c.request with
  | create draft =>
    cases hv : draft.validate with
    | error v =>
      simp only [hv]
      exact .invalid hs (by rw [hr]; exact hv)
    | ok =>
      simp only [hv]
      exact .draft hs hr hv
  | update candidate =>
    cases hv : candidate.validate with
    | error v =>
      simp only [hv]
      exact .invalid hs (by rw [hr]; exact hv)
    | ok =>
      simp only [hv]
      exact .seek hs (by rw [hr]; rfl) (by rw [hr]; exact hv)
  | remove id => exact .seek hs (by rw [hr]; rfl) (by rw [hr]; rfl)

theorem attempt_moves {n : Nat} (hs : c.stage = .attempting n) :
    Moves σ now cancelled s c (c.attempt now cancelled s n).1 (c.attempt now cancelled s n).2 := by
  unfold attempt
  cases hl : s.locks.request cancelled now c.request.lockKey s.settings.lockTtl with
  | cancelled =>
    refine .give (.inl hs) ?_
    unfold LockTable.request at hl
    split_ifs at hl with hc
    · exact hc
    · split at hl <;> cases hl
  | granted token locks => exact .grant hs hl
  | refused =>
    simp only
    split_ifs with hn
    · unfold sleep
      cases hw : wait? s.settings n with
      | none => exact .crash hs hl hn hw
      | some time => exact .retry hs hl hn hw
    · exact .despair hs hl (Nat.not_lt.mp hn)

theorem prepare_moves {lock : Token} (hs : c.stage = .reading lock) :
    Moves σ now cancelled s c (c.prepare σ s lock).1 (c.prepare σ s lock).2 := by
  unfold prepare Service.get
  cases hp : s.live.get? c.request.target with
  | none => exact .missing hs hp
  | some current =>
    cases hr : c.request with
    | create draft => exact .bury hs (by rw [hr]; simp) hp
    | remove id => exact .bury hs (by rw [hr]; simp) hp
    | update candidate =>
      rw [hr] at hp
      simp only
      split_ifs with hv
      · exact .conflict hs hr hp hv
      · exact .revise hs hr hp (Decidable.not_not.mp hv)

theorem append_moves {lock : Option Token} {e : Event} (hs : c.stage = .appending lock e) :
    Moves σ now cancelled s c (c.append s lock e).1 (c.append s lock e).2 := by
  have hrecord (recorded : Event) (ha : (s.log.append e).1 = .ok recorded) :=
    @Moves.record σ now cancelled s c lock e recorded hs ha
  have hreject (fault : Fault) (ha : (s.log.append e).1 = .error fault) :=
    @Moves.reject σ now cancelled s c lock e fault hs ha
  unfold append
  cases ha : s.log.append e with
  | mk outcome log =>
    rw [ha] at hrecord hreject
    cases outcome with
    | error fault => exact hreject fault rfl
    | ok recorded => exact hrecord recorded rfl

/-- **Every step is one of the moves.** -/
theorem step_moves :
    Moves σ now cancelled s c (c.step σ now cancelled s).1 (c.step σ now cancelled s).2 := by
  unfold step
  cases hs : c.stage with
  | arrived => exact arrive_moves σ now cancelled s c hs
  | attempting n => exact attempt_moves σ now cancelled s c hs
  | asleep n wakeAt =>
    simp only
    split_ifs with hc hw
    · exact .give (.inr ⟨wakeAt, hs⟩) hc
    · exact .doze hs (by simpa using hc) hw
    · exact .wake hs (by simpa using hc) (Nat.not_lt.mp hw)
  | reading lock => exact prepare_moves σ now cancelled s c hs
  | appending lock e => exact append_moves σ now cancelled s c hs
  | committing lock e => exact .commit hs
  | publishing lock e => exact .publish hs
  | releasing lock outcome => exact .release hs
  | finished outcome => exact .ended (by rw [isOver, hs])
  | broken => exact .ended (by rw [isOver, hs])

/-! ## Coming to rest -/

/-- A bound on the number of steps from a stage on. -/
def rank (settings : WriteSettings) : Stage → Nat
  | .arrived => 2 * attemptLimit settings + 5
  | .attempting n => 2 * (attemptLimit settings - n) + 6
  | .asleep n _ => 2 * (attemptLimit settings - (n + 1)) + 7
  | .reading _ => 5
  | .appending .. => 4
  | .committing .. => 3
  | .publishing .. => 2
  | .releasing .. => 1
  | .finished _ => 0
  | .broken => 0

theorem attemptLimit_pos (settings : WriteSettings) : 1 ≤ attemptLimit settings :=
  Nat.le_max_left _ _

theorem rank_le_longestRun (settings : WriteSettings) (stage : Stage) :
    rank settings stage ≤ longestRun settings := by
  have := attemptLimit_pos settings
  unfold longestRun
  cases stage <;> simp only [rank] <;> omega

theorem rank_conclude_le (settings : WriteSettings) (lock : Option Token) (outcome : Outcome) :
    rank settings (c.conclude lock outcome).stage ≤ 1 := by
  cases lock with
  | none => exact Nat.zero_le 1
  | some token => exact Nat.le_refl 1

variable {σ now cancelled s c} {s' : Service} {c' : Call}

theorem Moves.settings_eq (h : Moves σ now cancelled s c s' c') : s'.settings = s.settings := by
  cases h <;> rfl

/-- Every move of a call that is not suspended takes it nearer to its end. -/
theorem Moves.rank_lt (h : Moves σ now cancelled s c s' c')
    (hs : c.isSuspended now cancelled = false) :
    rank s.settings c'.stage < rank s.settings c.stage := by
  have hpos := attemptLimit_pos s.settings
  cases h with
  | doze h hc hw =>
    simp [isSuspended, h, hc, hw] at hs
  | ended h =>
    unfold isOver at h
    unfold isSuspended at hs
    split at h
    · next heq => rw [heq] at hs; cases hs
    · next heq => rw [heq] at hs; cases hs
    · cases h
  | give h hc =>
    rcases h with h | ⟨wakeAt, h⟩ <;> rw [h] <;> exact Nat.succ_pos _
  | missing h | conflict h | reject h | publish h =>
    rw [h]
    exact Nat.lt_of_le_of_lt (rank_conclude_le ..) (by simp [rank])
  | invalid h | draft h | seek h | grant h | retry h | crash h | despair h | wake h | revise h
  | bury h | record h | commit h | release h =>
    rw [h]
    simp only [goto, rank]
    omega

theorem settle_succ (n : Nat) : c.settle σ now cancelled (n + 1) s =
    if c.isSuspended now cancelled then (s, c)
    else (c.step σ now cancelled s).2.settle σ now cancelled n (c.step σ now cancelled s).1 := rfl

/-- **What the steps of a call keep** holds as far as it goes on. -/
theorem settle_induction {Q : Service → Call → Prop}
    (hstep : ∀ s c, c.isSuspended now cancelled = false → Q s c →
      Q (c.step σ now cancelled s).1 (c.step σ now cancelled s).2) (h : Q s c) (n : Nat) :
    Q (c.settle σ now cancelled n s).1 (c.settle σ now cancelled n s).2 := by
  induction n generalizing s c with
  | zero => exact h
  | succ n ih =>
    rw [settle_succ]
    split_ifs with hsus
    · exact h
    · exact ih (hstep s c (Bool.eq_false_iff.mpr hsus) h)

theorem isSuspended_settle {n : Nat} (h : rank s.settings c.stage ≤ n) :
    (c.settle σ now cancelled n s).2.isSuspended now cancelled = true := by
  induction n generalizing s c with
  | zero =>
    show c.isSuspended now cancelled = true
    unfold isSuspended
    cases hs : c.stage <;> simp [hs, rank] at h ⊢
  | succ n ih =>
    rw [settle_succ]
    split_ifs with hsus
    · exact hsus
    · have hmoves := step_moves σ now cancelled s c
      have hlt := hmoves.rank_lt (Bool.eq_false_iff.mpr hsus)
      refine ih ?_
      rw [hmoves.settings_eq]
      omega

/-- **A call that is resumed is suspended in the end.** -/
theorem isSuspended_resume : (c.resume σ now cancelled s).2.isSuspended now cancelled = true :=
  isSuspended_settle (rank_le_longestRun ..)

end Call

end CatalogChain
