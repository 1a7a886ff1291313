import CatalogChain.Proofs.Service.Deeds
import CatalogChain.Proofs.Service.Single

/-!
# All or nothing

A write that fails leaves everything as it was that shows what is written: the live table, the log
with its last sequence number, and the feed (`Service.Untouched`).  This is so since every step
after which a call has recorded nothing touches none of them (`Call.Moves.untouched`).

The lock of a write is gone when the write is over, whatever its outcome.  A call holds a lock from
the step that grants it up to the step that releases it (`Call.Moves.locks`), and meanwhile the
table of locks is the one before with that lock added (`LockTable.Held`).  So all that a write can
change about the locks of others is that it takes the place of one that was expired
(`LockTable.Cleared`).
-/

namespace CatalogChain

/-! ## What is written -/

/-- **What shows the writes of a service** is the same as in another one. -/
structure Service.Untouched (s s' : Service) : Prop where
  live : s'.live = s.live
  log : s'.log = s.log
  feed : s'.feed = s.feed

theorem Service.Untouched.refl (s : Service) : s.Untouched s := ⟨rfl, rfl, rfl⟩

theorem Service.Untouched.trans {s₁ s₂ s₃ : Service} (h : s₁.Untouched s₂)
    (h' : s₂.Untouched s₃) : s₁.Untouched s₃ :=
  ⟨h'.live.trans h.live, h'.log.trans h.log, h'.feed.trans h.feed⟩

/-- A log that refuses an event is as it was. -/
theorem EventLog.append_of_error {log : EventLog} {e : Event} {fault : Fault}
    (h : (log.append e).1 = .error fault) : (log.append e).2 = log := by
  unfold append at h ⊢
  simp only at h ⊢
  split
  · rfl
  · next history hi =>
    simp only [hi] at h
    cases h

namespace Call

variable {σ : Supply} {now : Nat} {cancelled : Bool} {s s' : Service} {c c' : Call}

theorem Moves.request_eq (h : Moves σ now cancelled s c s' c') : c'.request = c.request := by
  cases h <;> rfl

theorem written_conclude_ok (c : Call) (lock : Option Token) (e : Event) :
    (c.conclude lock (.ok e)).written = [e] := by
  rw [written, hand_conclude_ok]

/-- **A step after which a call has recorded nothing leaves everything as it was.** -/
theorem Moves.untouched (h : Moves σ now cancelled s c s' c') (hw : c'.written = []) :
    s.Untouched s' ∧ c.written = [] := by
  cases h with
  | invalid hs | draft hs | seek hs | grant hs | retry hs | crash hs | despair hs | wake hs
  | missing hs | conflict hs | revise hs | bury hs =>
    exact ⟨⟨rfl, rfl, rfl⟩, by rw [written, hand, hs]⟩
  | give hs =>
    refine ⟨.refl s, ?_⟩
    rcases hs with hs | ⟨wakeAt, hs⟩ <;> rw [written, hand, hs]
  | doze | ended => exact ⟨.refl s, hw⟩
  | reject hs ha =>
    have hlog := EventLog.append_of_error ha
    exact ⟨⟨rfl, hlog, rfl⟩, by rw [written, hand, hs]⟩
  | @release lock outcome hs =>
    refine ⟨⟨rfl, rfl, rfl⟩, ?_⟩
    cases outcome with
    | error fault => rw [written, hand, hs]
    | ok e => cases hw
  | record | commit => cases hw
  | publish =>
    rw [written_conclude_ok] at hw
    cases hw

/-! ## Locks -/

/-- The token of the lock that a call holds. -/
def token? (c : Call) : Option Token :=
  match c.stage with
  | .reading token | .releasing token _ => some token
  | .appending lock _ | .committing lock _ | .publishing lock _ => lock
  | _ => none

theorem token?_conclude (c : Call) (lock : Option Token) (outcome : Outcome) :
    (c.conclude lock outcome).token? = lock := by
  cases lock <;> rfl

theorem stage_conclude_ne_broken (c : Call) (lock : Option Token) (outcome : Outcome) :
    (c.conclude lock outcome).stage ≠ .broken := by
  cases lock <;> exact Stage.noConfusion

/-- **A call breaks off** only behind an attempt that is not the last one allowed, where the wait
cannot be counted. -/
theorem Moves.broken (h : Moves σ now cancelled s c s' c') (hb : c'.stage = .broken) :
    c.stage = .broken ∨ ∃ n < attemptLimit s.settings, wait? s.settings n = none := by
  cases h with
  | @crash n hs hl hn hw => exact .inr ⟨n, hn, hw⟩
  | doze | ended => exact .inl hb
  | missing | conflict | reject | publish => exact absurd hb (stage_conclude_ne_broken _ _ _)
  | invalid | draft | seek | give | grant | retry | despair | wake | revise | bury | record
  | commit | release => cases hb

/-- **What a step does about locks**: nothing, or it takes one, or it gives one back. -/
theorem Moves.locks (h : Moves σ now cancelled s c s' c') :
    (s'.locks = s.locks ∧ c'.token? = c.token?) ∨
    (∃ n token, c.stage = .attempting n ∧ c'.token? = some token ∧
      s.locks.request cancelled now c.request.lockKey s.settings.lockTtl =
        .granted token s'.locks) ∨
    ∃ token, c.token? = some token ∧ c'.token? = none ∧
      s'.locks = (s.locks.releaseOwned c.request.lockKey token).2 := by
  cases h with
  | grant hs hl => exact .inr (.inl ⟨_, _, hs, rfl, hl⟩)
  | release hs => exact .inr (.inr ⟨_, by rw [token?, hs], rfl, rfl⟩)
  | invalid hs | draft hs | seek hs | retry hs | crash hs | despair hs | wake hs | revise hs
  | bury hs | record hs | commit hs =>
    exact .inl ⟨rfl, by rw [token?, token?, hs]; rfl⟩
  | missing hs | conflict hs | reject hs | publish hs =>
    exact .inl ⟨rfl, by rw [token?_conclude, token?, hs]⟩
  | give hs =>
    refine .inl ⟨rfl, ?_⟩
    rcases hs with hs | ⟨wakeAt, hs⟩ <;> rw [token?, token?, hs] <;> rfl
  | doze | ended => exact .inl ⟨rfl, rfl⟩

end Call

namespace LockTable

/-- **A table of locks without what a write has taken**: it is the one before, but for a lock on the
key of the write that was expired. -/
def Cleared (request : Request) (now : Nat) (before after : LockTable) : Prop :=
  ∀ key, after.locks.get? key = before.locks.get? key ∨
    request.needsLock = true ∧ key = request.lockKey ∧ after.locks.get? key = none ∧
      ∃ l, before.locks.get? key = some l ∧ l.isExpired now = true

/-- **A table of locks with the lock of a write**: all else is as before, where the key was free. -/
structure Held (request : Request) (token : Token) (now : Nat) (before after : LockTable) :
    Prop where
  needed : request.needsLock = true
  owned : after.isOwnedBy request.lockKey token = true
  free : ∀ l, before.locks.get? request.lockKey = some l → l.isExpired now = true
  others : ∀ key, key ≠ request.lockKey → after.locks.get? key = before.locks.get? key

/-- What the locks are to a call, by the lock that it holds. -/
def Kept (request : Request) (lock : Option Token) (now : Nat) (before after : LockTable) : Prop :=
  match lock with
  | none => Cleared request now before after
  | some token => Held request token now before after

variable {request : Request} {token : Token} {now later : Nat} {before t t' : LockTable}

theorem Kept.mono {lock : Option Token} (h : Kept request lock now before t) (hle : now ≤ later) :
    Kept request lock later before t := by
  cases lock with
  | none =>
    intro key
    rcases h key with h | ⟨hneeds, hkey, hnone, l, hl, hexp⟩
    · exact .inl h
    · exact .inr ⟨hneeds, hkey, hnone, l, hl, Lock.isExpired_mono hexp hle⟩
  | some token =>
    exact ⟨h.needed, h.owned, fun l hl => Lock.isExpired_mono (h.free l hl) hle, h.others⟩

/-- **A lock is taken.** -/
theorem Cleared.grant (h : Cleared request now before t) (hneeds : request.needsLock = true)
    {cancelled : Bool} {ttl : Nat}
    (hg : t.request cancelled now request.lockKey ttl = .granted token t') :
    Held request token now before t' := by
  obtain ⟨-, hfree, -, rfl⟩ := request_eq_granted_iff.mp hg
  refine ⟨hneeds, ?_, fun l hl => ?_, fun key hkey => ?_⟩
  · exact isOwnedBy_eq_true_iff.mpr ⟨_, (Table.get?_put ..).trans (if_pos rfl), rfl⟩
  · -- the lock that was there is expired, or it has gone before
    rcases h request.lockKey with hsame | ⟨-, -, -, l', hl', hexp⟩
    · by_contra hlive
      rw [Bool.eq_false_iff] at hfree
      refine hfree (isLocked_eq_true_iff.mpr ⟨l, hsame.trans hl, ?_⟩)
      unfold Lock.isExpired at hlive
      have hlt := of_decide_eq_false (Bool.not_eq_true _ ▸ hlive)
      omega
    · cases hl.symm.trans hl'
      exact hexp
  · have hput : (t.locks.put request.lockKey ⟨token, now + ttl⟩).get? key = t.locks.get? key :=
      (Table.get?_put ..).trans (if_neg (Ne.symm hkey))
    rcases h key with hsame | ⟨-, hk, -⟩
    · exact hput.trans hsame
    · exact absurd hk hkey

/-- **The lock is given back.** -/
theorem Held.release (h : Held request token now before t) :
    Cleared request now before (t.releaseOwned request.lockKey token).2 := by
  have hreleased : (t.releaseOwned request.lockKey token).2 = t.release request.lockKey := by
    rw [releaseOwned, if_pos h.owned]
  have herase : ∀ key, (t.release request.lockKey).locks.get? key =
      if request.lockKey = key then none else t.locks.get? key := fun key => Table.get?_erase ..
  rw [hreleased]
  intro key
  rw [herase]
  split_ifs with hkey
  · subst hkey
    cases hl : before.locks.get? request.lockKey with
    | none => exact .inl rfl
    | some l => exact .inr ⟨h.needed, rfl, rfl, l, rfl, h.free l hl⟩
  · exact .inl (h.others key (Ne.symm hkey))

end LockTable

/-! ## Writes -/

/-- **A write under way**, seen from the deployment in which it began. -/
structure Call.Tidy (before : Deployment) (request : Request) (d : Deployment) (c : Call) :
    Prop where
  request_eq : c.request = request
  settings_eq : d.service.settings = before.service.settings
  sane : c.Sane
  untouched : c.written = [] → before.service.Untouched d.service
  still : before.roster.workers = [] → d.roster.workers = []
  locks : before.roster.workers = [] →
    LockTable.Kept request c.token? d.now before.service.locks d.service.locks
  broken : c.stage = .broken →
    ∃ n < attemptLimit before.service.settings, wait? before.service.settings n = none

namespace Call.Tidy

variable {before d : Deployment} {request : Request} {c : Call}

theorem ofRequest (d : Deployment) (request : Request) : Tidy d request d (.ofRequest request) where
  request_eq := rfl
  settings_eq := rfl
  sane := trivial
  untouched _ := .refl _
  still h := h
  locks _ := fun _ => .inl rfl
  broken h := by cases h

theorem moves (h : Tidy before request d c) {σ : Supply} {cancelled : Bool} {s' : Service}
    {c' : Call} (hm : Moves σ d.now cancelled d.service c s' c') :
    Tidy before request { d with service := s' } c' where
  request_eq := hm.request_eq.trans h.request_eq
  settings_eq := hm.settings_eq.trans h.settings_eq
  sane := hm.sane h.sane
  untouched hw := by
    -- who has recorded nothing behind the step had recorded nothing before it
    obtain ⟨hsame, hw⟩ := hm.untouched hw
    exact (h.untouched hw).trans hsame
  still := h.still
  locks hstill := by
    have hlocks := h.locks hstill
    rcases hm.locks with ⟨hsame, htoken⟩ | ⟨n, token, hs, htoken, hg⟩ | ⟨token, hheld, htoken, hr⟩
    · rw [hsame, htoken]
      exact hlocks
    · have hsane := h.sane
      rw [Call.Sane, hs, h.request_eq] at hsane
      rw [Call.token?, hs] at hlocks
      rw [h.request_eq] at hg
      rw [htoken]
      exact hlocks.grant hsane.1 hg
    · rw [hheld] at hlocks
      rw [htoken, hr, h.request_eq]
      exact hlocks.release
  broken hb := by
    rcases hm.broken hb with hb | ⟨n, hn, hw⟩
    · exact h.broken hb
    · rw [h.settings_eq] at hn hw
      exact ⟨n, hn, hw⟩

theorem keeps (σ : Supply) (before : Deployment) (request : Request) :
    Deployment.Keeps σ (Tidy before request) where
  step d c cancelled h := h.moves (c.step_moves σ d.now cancelled d.service)
  pass d c now hle h := by
    have hstill : before.roster.workers = [] →
        (d.passTo now).roster.workers = [] ∧ (d.passTo now).service.locks = d.service.locks := by
      intro hstill
      unfold Deployment.passTo Roster.passTo
      rw [h.still hstill]
      exact ⟨rfl, rfl⟩
    refine ⟨h.request_eq, h.settings_eq, h.sane, fun hw => ?_, fun hs => (hstill hs).1,
      fun hs => ?_, h.broken⟩
    · obtain ⟨hlive, hlog, hfeed⟩ := h.untouched hw
      exact ⟨hlive, hlog, hfeed⟩
    · rw [(hstill hs).2]
      exact (h.locks hs).mono hle

end Call.Tidy

namespace Deployment

/-- **A write is all or nothing**: one that fails leaves everything as it was that shows what is
written, and unless a sweeper is at work, any write leaves the locks of others as they were, but for
one on its own key that is expired, and has none of its own any more. -/
structure AllOrNothing (d : Deployment) (request : Request) (outcome : Outcome)
    (d' : Deployment) : Prop where
  untouched : ∀ fault, outcome = .error fault → d.service.Untouched d'.service
  locks : d.roster.workers = [] →
    d.service.locks.Cleared request d'.now d'.service.locks

/-- **Every write is all or nothing**; it has an outcome unless one of its waits is longer than can
be counted. -/
theorem allOrNothing_perform? (σ : Supply) (d : Deployment) (cancellation : Cancellation)
    (request : Request) :
    (∃ outcome d', d.perform? σ cancellation request = some (outcome, d') ∧
      d.AllOrNothing request outcome d') ∨
    d.perform? σ cancellation request = none ∧
      ∃ n < Call.attemptLimit d.service.settings, Call.wait? d.service.settings n = none := by
  obtain ⟨d', call, htidy, hover, hperform⟩ := perform?_of_keeps
    (Call.Tidy.keeps σ d request) (Call.Tidy.ofRequest d request) cancellation
  rw [hperform]
  cases hs : call.stage with
  | finished outcome =>
    have houtcome : call.outcome? = some outcome := by rw [Call.outcome?, hs]
    refine .inl ⟨outcome, d', by rw [houtcome]; rfl, ?_, fun hstill => ?_⟩
    · rintro fault rfl
      exact htidy.untouched (by rw [Call.written, Call.hand, hs])
    · have hlocks := htidy.locks hstill
      rw [Call.token?, hs] at hlocks
      exact hlocks
  | broken => exact .inr ⟨by rw [Call.outcome?, hs]; rfl, htidy.broken hs⟩
  | arrived | attempting | asleep | reading | appending | committing | publishing | releasing =>
    rw [Call.isOver, hs] at hover
    cases hover

end Deployment

end CatalogChain
