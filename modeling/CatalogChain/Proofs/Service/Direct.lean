import CatalogChain.Proofs.Service.Moves

/-!
# Writes that need not wait

A call whose lock is free goes through all of its stages at one instant.  What it does then can be
said without stages: what the live table shows decides what it comes to (`Request.plan`), it makes
the event of that (`Service.prepare`), and records, commits and publishes it (`Service.enter`).
`Service.write` is all of this, and `Service.answer` is all of a request: its check, its lock, and
the write.

* `Call.resume_ofRequest`: a call that arrives where its lock is free has the answer as its outcome;
* `Call.continues_resume`: a call that waits for its turn either goes on waiting or gives up, and
  then nothing at all has changed, or it gets its lock and writes.
-/

namespace CatalogChain

/-! ## Writes in one go -/

/-- The table after one owner has taken the lock on a key and given it back. -/
def LockTable.visit (t : LockTable) (key : String) : LockTable := ⟨t.locks.erase key, t.drawn + 1⟩

theorem Entries.erase_put {α : Type} (k : String) (v : α) (es : List (String × α)) :
    erase k (put k v es) = erase k es := by
  induction es with
  | nil => simp [put, erase]
  | cons e es ih =>
    unfold put
    split_ifs with he
    · simp [erase, he]
    · simp [erase, he, ih]

/-- **Who takes a lock and gives it back** leaves nothing behind but an expired entry less. -/
theorem LockTable.releaseOwned_granted {t t' : LockTable} {cancelled : Bool} {now ttl : Nat}
    {key : String} {token : Token} (h : t.request cancelled now key ttl = .granted token t') :
    (t'.releaseOwned key token).2 = t.visit key := by
  obtain ⟨-, -, rfl, rfl⟩ := request_eq_granted_iff.mp h
  have howned : LockTable.isOwnedBy ⟨t.locks.put key ⟨t.drawn + 1, now + ttl⟩, t.drawn + 1⟩ key
      (t.drawn + 1) = true :=
    isOwnedBy_eq_true_iff.mpr ⟨_, (Table.get?_put ..).trans (if_pos rfl), rfl⟩
  have herase : (t.locks.put key ⟨t.drawn + 1, now + ttl⟩).erase key = t.locks.erase key := by
    unfold Table.erase Table.put
    simp only [Entries.erase_put]
  rw [releaseOwned, if_pos howned, release, visit, herase]

/-- A visit leaves every key free that was free. -/
theorem LockTable.isLocked_visit {t : LockTable} {now : Nat} {key key' : String}
    (h : t.isLocked now key' = false) : (t.visit key).isLocked now key' = false := by
  have hget : (t.visit key).locks.get? key' = if key = key' then none else t.locks.get? key' :=
    Table.get?_erase ..
  unfold isLocked at h ⊢
  rw [hget]
  split_ifs
  · rfl
  · exact h

/-- **What a write comes to**: a fault, or an event of one of the three kinds. -/
inductive Plan where
  | refuse (fault : Fault)
  | create (draft : Content)
  | revise (current candidate : Product)
  | bury (current : Product)

namespace Request

/-- **What a request comes to** where a product is live under its id, or none. -/
def plan (live : Option Product) : Request → Plan
  | .create draft => .create draft
  | .update candidate =>
    match live with
    | none => .refuse (.notFound candidate.id)
    | some current =>
      if candidate.version ≠ current.version then
        .refuse (.versionConflict current.id candidate.version current.version)
      else .revise current candidate
  | .remove id =>
    match live with
    | none => .refuse (.notFound id)
    | some current => .bury current

/-- **A request for a product that is there already** comes to a fault, or to a revision or a
deletion of what is live. -/
theorem plan_cases {r : Request} (hr : r.needsLock = true) (live : Option Product) :
    (∃ fault, r.plan live = .refuse fault) ∨
      ∃ current, live = some current ∧ (r.plan live = .bury current ∨
        ∃ candidate, candidate.id = r.target ∧ r.plan live = .revise current candidate) := by
  cases r with
  | create => cases hr
  | update candidate =>
    cases live with
    | none => exact .inl ⟨_, rfl⟩
    | some current =>
      by_cases hv : candidate.version = current.version
      · exact .inr ⟨current, rfl, .inr ⟨candidate, rfl, if_neg (not_not_intro hv)⟩⟩
      · exact .inl ⟨_, if_pos hv⟩
  | remove id =>
    cases live with
    | none => exact .inl ⟨_, rfl⟩
    | some current => exact .inr ⟨current, rfl, .inl rfl⟩

end Request

namespace Service

/-- Carries out a plan as far as its event, which takes what has been drawn for it. -/
def make (σ : Supply) (s : Service) : Plan → Except Fault Event × Service
  | .refuse fault => (.error fault, s)
  | .create draft => (.ok (s.creation σ draft).1, (s.creation σ draft).2)
  | .revise current candidate =>
    (.ok (s.revision σ current candidate).1, (s.revision σ current candidate).2)
  | .bury current => (.ok (s.deletion σ current).1, (s.deletion σ current).2)

/-- **The event of a write**, made of what the live table shows, and what has been drawn for it. -/
def prepare (σ : Supply) (s : Service) (r : Request) : Except Fault Event × Service :=
  s.make σ (r.plan (s.live.get? r.target))

/-- **Records an event**, commits it and publishes it, unless its version is recorded already. -/
def enter (s : Service) (e : Event) : Outcome × Service :=
  match (s.log.append e).1 with
  | .error fault => (.error fault, { s with log := (s.log.append e).2 })
  | .ok recorded =>
    (.ok recorded,
      { s with
        log := (s.log.append e).2
        live := s.live.apply recorded
        feed := s.feed.publish recorded })

/-- **A write in one go**, whoever holds its lock. -/
def write (σ : Supply) (s : Service) (r : Request) : Outcome × Service :=
  match (s.prepare σ r).1 with
  | .error fault => (.error fault, (s.prepare σ r).2)
  | .ok e => (s.prepare σ r).2.enter e

/-- **All of a write that need not wait**: its check, its lock if it needs one, and the write. -/
def answer (σ : Supply) (cancelled : Bool) (s : Service) (r : Request) : Outcome × Service :=
  match r.check with
  | .error v => (.error (.ofViolation v), s)
  | .ok () =>
    if r.needsLock = true then
      if cancelled = true then (.error (.cancelled r.lockKey), s)
      else ((s.write σ r).1, { (s.write σ r).2 with locks := s.locks.visit r.lockKey })
    else s.write σ r

variable (σ : Supply) (s : Service) (settings : WriteSettings) (locks : LockTable)

/-- Neither settings nor locks matter to what is prepared. -/
theorem prepare_with (r : Request) : prepare σ { s with settings, locks } r =
    ((s.prepare σ r).1, { (s.prepare σ r).2 with settings, locks }) := by
  unfold prepare
  cases r.plan (s.live.get? r.target) <;> rfl

theorem enter_with (e : Event) : enter { s with settings, locks } e =
    ((s.enter e).1, { (s.enter e).2 with settings, locks }) := by
  unfold enter
  simp only
  split <;> rfl

theorem locks_enter (e : Event) : (s.enter e).2.locks = s.locks :=
  congrArg (fun x => x.2.locks) (s.enter_with s.settings s.locks e)

theorem locks_prepare (r : Request) : (s.prepare σ r).2.locks = s.locks :=
  congrArg (fun x => x.2.locks) (s.prepare_with σ s.settings s.locks r)

/-- **Neither settings nor locks matter to a write**, and it leaves them alone. -/
theorem write_with (r : Request) : write σ { s with settings, locks } r =
    ((s.write σ r).1, { (s.write σ r).2 with settings, locks }) := by
  unfold write
  rw [prepare_with]
  simp only
  split
  · rfl
  · exact enter_with ..

theorem settings_write (r : Request) : (s.write σ r).2.settings = s.settings :=
  congrArg (fun x => x.2.settings) (s.write_with σ s.settings s.locks r)

theorem locks_write (r : Request) : (s.write σ r).2.locks = s.locks :=
  congrArg (fun x => x.2.locks) (s.write_with σ s.settings s.locks r)

theorem write_withLocks (r : Request) : write σ { s with locks } r =
    ((s.write σ r).1, { (s.write σ r).2 with locks }) := by
  rw [s.write_with σ s.settings locks, ← s.settings_write σ r]

/-- Settings do not matter to an answer. -/
theorem answer_withSettings (cancelled : Bool) (r : Request) :
    answer σ cancelled { s with settings } r =
      ((s.answer σ cancelled r).1, { (s.answer σ cancelled r).2 with settings }) := by
  have hwrite := s.write_with σ settings s.locks r
  unfold answer
  simp only [hwrite]
  split
  · rfl
  · split_ifs
    · rfl
    · rfl
    · rw [← s.locks_write σ r]

/-- **An answer leaves every key free that was free.** -/
theorem isLocked_answer {cancelled : Bool} {r : Request} {now : Nat} {key : String}
    (h : s.locks.isLocked now key = false) :
    (s.answer σ cancelled r).2.locks.isLocked now key = false := by
  unfold answer
  split
  · exact h
  · split_ifs
    · exact h
    · exact LockTable.isLocked_visit h
    · rw [locks_write]
      exact h

end Service

/-! ## Going on without waiting -/

namespace Call

variable {σ : Supply} {now : Nat} {cancelled : Bool} {s : Service} {c : Call}

theorem settle_of_isSuspended (h : c.isSuspended now cancelled = true) (n : Nat) :
    c.settle σ now cancelled n s = (s, c) := by
  cases n with
  | zero => rfl
  | succ n => rw [settle_succ, if_pos h]

/-- A call that is not suspended makes a step. -/
theorem settle_step (h : c.isSuspended now cancelled = false) (n : Nat) :
    c.settle σ now cancelled (n + 1) s =
      (c.step σ now cancelled s).2.settle σ now cancelled n (c.step σ now cancelled s).1 := by
  rw [settle_succ, h]
  rfl

/-- The table of locks after a call has given back what it holds. -/
def returned (c : Call) (locks : LockTable) : Option Token → LockTable
  | none => locks
  | some token => (locks.releaseOwned c.request.lockKey token).2

theorem settle_conclude (lock : Option Token) (outcome : Outcome) (n : Nat) :
    (c.conclude lock outcome).settle σ now cancelled (n + 1) s =
      ({ s with locks := c.returned s.locks lock }, c.goto (.finished outcome)) := by
  cases lock with
  | none => exact settle_of_isSuspended rfl _
  | some token =>
    rw [settle_step rfl]
    exact settle_of_isSuspended rfl _

/-- **A call with an event in hand** records, commits and publishes it. -/
theorem settle_appending {lock : Option Token} {e : Event} (hs : c.stage = .appending lock e)
    (n : Nat) : c.settle σ now cancelled (n + 4) s =
      ({ (s.enter e).2 with locks := c.returned s.locks lock },
        c.goto (.finished (s.enter e).1)) := by
  have hstep : c.step σ now cancelled s = c.append s lock e := by rw [step, hs]
  rw [settle_step (by rw [isSuspended, hs]), hstep, append, Service.enter]
  cases ha : s.log.append e with
  | mk outcome log =>
    cases outcome with
    | error fault => exact settle_conclude lock (.error fault) (n + 2)
    | ok recorded =>
      -- two more steps lead from the log to the feed
      show settle σ now cancelled (n + 3) _ _ = _
      rw [settle_step rfl, settle_step rfl]
      exact settle_conclude lock (.ok recorded) n

/-- What a call reads is what its event is made of. -/
theorem prepare_eq (lock : Token) (hr : c.request.needsLock = true) : c.prepare σ s lock =
    ((s.prepare σ c.request).2,
      match (s.prepare σ c.request).1 with
      | .error fault => c.conclude lock (.error fault)
      | .ok e => c.goto (.appending lock e)) := by
  unfold prepare Service.get Service.prepare
  cases hreq : c.request with
  | create => rw [hreq] at hr; cases hr
  | update candidate =>
    cases hp : s.live.get? candidate.id with
    | none => simp only [Request.target, Request.plan, Service.make, hp]
    | some current =>
      simp only [Request.target, Request.plan, hp]
      split_ifs <;> rfl
  | remove id =>
    cases hp : s.live.get? id with
    | none | some current => simp only [Request.target, Request.plan, Service.make, hp]

/-- **A call that holds its lock** writes. -/
theorem settle_reading {lock : Token} (hs : c.stage = .reading lock)
    (hr : c.request.needsLock = true) (n : Nat) : c.settle σ now cancelled (n + 5) s =
      ({ (s.write σ c.request).2 with locks := c.returned s.locks (some lock) },
        c.goto (.finished (s.write σ c.request).1)) := by
  have hstep : c.step σ now cancelled s = c.prepare σ s lock := by rw [step, hs]
  have hlocks : (s.prepare σ c.request).2.locks = s.locks := s.locks_prepare σ _
  rw [settle_step (by rw [isSuspended, hs]), hstep, prepare_eq lock hr, Service.write]
  cases hp : (s.prepare σ c.request).1 with
  | error fault =>
    rw [← hlocks]
    exact settle_conclude (lock : Option Token) (.error fault) (n + 3)
  | ok e =>
    rw [← hlocks]
    exact settle_appending (c := c.goto (.appending lock e)) rfl n

/-! ## Calls that arrive -/

/-- A request that needs no lock is a creation. -/
theorem exists_draft {r : Request} (h : r.needsLock = false) : ∃ draft, r = .create draft := by
  cases r with
  | create draft => exact ⟨draft, rfl⟩
  | update | remove => cases h

/-- **A call that tries for a lock** that is free gets it and writes. -/
theorem settle_attempting {k : Nat} (hs : c.stage = .attempting k)
    (hr : c.request.needsLock = true) (hc : cancelled = false)
    (hfree : s.locks.isLocked now c.request.lockKey = false) (n : Nat) :
    c.settle σ now cancelled (n + 6) s =
      ({ (s.write σ c.request).2 with locks := s.locks.visit c.request.lockKey },
        c.goto (.finished (s.write σ c.request).1)) := by
  obtain ⟨token, locks, hgrant⟩ : ∃ token locks, s.locks.request cancelled now c.request.lockKey
      s.settings.lockTtl = .granted token locks :=
    ⟨_, _, LockTable.request_eq_granted_iff.mpr ⟨hc, hfree, rfl, rfl⟩⟩
  have hstep : c.step σ now cancelled s = ({ s with locks }, c.goto (.reading token)) := by
    rw [step, hs]
    show c.attempt now cancelled s k = _
    rw [attempt, hgrant]
  have hread : (c.goto (.reading token)).settle σ now cancelled (n + 5) { s with locks } = _ :=
    settle_reading (s := { s with locks }) (c := c.goto (.reading token)) rfl hr n
  rw [Service.write_withLocks σ s locks] at hread
  rw [settle_step (by rw [isSuspended, hs]), hstep, hread, ← LockTable.releaseOwned_granted hgrant]
  rfl

section Arrival
variable {r : Request}

theorem step_of_invalid {v : Violation} (h : r.check = .error v) :
    (ofRequest r).step σ now cancelled s = (s, ⟨r, .finished (.error (.ofViolation v))⟩) := by
  show (ofRequest r).arrive σ s = _
  cases r with
  | create draft =>
    have hv : draft.validate = .error v := h
    simp only [arrive, ofRequest, hv, goto]
  | update candidate =>
    have hv : candidate.validate = .error v := h
    simp only [arrive, ofRequest, hv, goto]
  | remove id => cases h

theorem step_of_draft {draft : Content} (h : draft.validate = .ok ()) :
    (ofRequest (.create draft)).step σ now cancelled s =
      ((s.creation σ draft).2, ⟨.create draft, .appending none (s.creation σ draft).1⟩) := by
  show (ofRequest (.create draft)).arrive σ s = _
  simp only [arrive, ofRequest, h, goto]

theorem step_of_needsLock (hr : r.needsLock = true) (h : r.check = .ok ()) :
    (ofRequest r).step σ now cancelled s = (s, ⟨r, .attempting 1⟩) := by
  show (ofRequest r).arrive σ s = _
  cases r with
  | create draft => cases hr
  | update candidate =>
    have hv : candidate.validate = .ok () := h
    simp only [arrive, ofRequest, hv, goto]
  | remove id => rfl

/-- **A call that arrives where its lock is free** has the answer as its outcome. -/
theorem resume_ofRequest (hfree : r.needsLock = true → s.locks.isLocked now r.lockKey = false) :
    (ofRequest r).resume σ now cancelled s =
      ((s.answer σ cancelled r).2, ⟨r, .finished (s.answer σ cancelled r).1⟩) := by
  obtain ⟨n, hn⟩ : ∃ n, longestRun s.settings = n + 7 + 1 := by
    have hpos := attemptLimit_pos s.settings
    refine ⟨2 * attemptLimit s.settings - 2, ?_⟩
    unfold longestRun
    omega
  rw [resume, hn, settle_step rfl, Service.answer]
  cases hv : r.check with
  | error v =>
    rw [step_of_invalid hv]
    exact settle_of_isSuspended rfl _
  | ok =>
    cases hr : r.needsLock with
    | false =>
      obtain ⟨draft, rfl⟩ := exists_draft hr
      have hlocks : { (Service.enter (s.creation σ draft).2 (s.creation σ draft).1).2 with
          locks := s.locks } = (Service.enter (s.creation σ draft).2 (s.creation σ draft).1).2 := by
        rw [← Service.locks_prepare σ s (.create draft), ← Service.locks_enter]
        rfl
      have hstage : stage ⟨.create draft, .appending none (s.creation σ draft).1⟩ =
        .appending none (s.creation σ draft).1 := rfl
      rw [step_of_draft hv, settle_appending hstage (n + 3)]
      exact congrArg (fun s => (s, _)) hlocks
    | true =>
      rw [step_of_needsLock hr hv]
      cases hc : cancelled with
      | true =>
        rw [settle_step rfl]
        exact settle_of_isSuspended rfl _
      | false => exact settle_attempting (c := ⟨r, .attempting 1⟩) rfl hr rfl (hfree hr) (n + 1)

end Arrival

/-! ## Calls that wait -/

/-- **What a call that waits for its turn does** when it goes on: it changes nothing and has not
succeeded, or it writes, with its lock taken and given back.  One that is still to go on then, or
has written, has passed its check. -/
inductive Continues (σ : Supply) (s : Service) (c : Call) : Service × Call → Prop
  | idle {c' : Call} (hr : c'.request = c.request) (ho : ∀ e, c'.outcome? ≠ some (.ok e))
      (hv : c'.isOver = true ∨ c.request.check = .ok ()) : Continues σ s c (s, c')
  | writes (hv : c.request.check = .ok ()) : Continues σ s c
      ({ (s.write σ c.request).2 with locks := s.locks.visit c.request.lockKey },
        c.goto (.finished (s.write σ c.request).1))

/-- What a call does does not depend on where it is before it tries for its lock. -/
theorem Continues.of_goto {stage : Stage} {p : Service × Call}
    (h : Continues σ s (c.goto stage) p) : Continues σ s c p := by
  cases h with
  | idle hr ho hv => exact .idle hr ho hv
  | writes hv => exact .writes hv

/-- A call that stops without success. -/
theorem continues_stop {stage : Stage} (n : Nat) (hover : (c.goto stage).isOver = true)
    (hs : (c.goto stage).isSuspended now cancelled = true)
    (ho : ∀ e, (c.goto stage).outcome? ≠ some (.ok e)) :
    Continues σ s c ((c.goto stage).settle σ now cancelled n s) := by
  rw [settle_of_isSuspended hs]
  exact .idle rfl ho (.inl hover)

section Waiting
variable (hr : c.request.needsLock = true)
include hr

/-- A call that tries for its lock, or sleeps before it tries again. -/
theorem continues_settle {n : Nat} (hv : c.request.check = .ok ())
    (hn : rank s.settings c.stage ≤ n)
    (hs : (∃ k, c.stage = .attempting k) ∨ ∃ k wakeAt, c.stage = .asleep k wakeAt) :
    Continues σ s c (c.settle σ now cancelled n s) := by
  induction n generalizing c with
  | zero =>
    rcases hs with ⟨k, hs⟩ | ⟨k, wakeAt, hs⟩ <;> rw [hs] at hn <;> simp [rank] at hn
  | succ n ih =>
    by_cases hsus : c.isSuspended now cancelled = true
    · rw [settle_of_isSuspended hsus]
      refine .idle rfl (fun e he => ?_) (.inr hv)
      rcases hs with ⟨k, hs⟩ | ⟨k, wakeAt, hs⟩ <;> rw [outcome?, hs] at he <;> cases he
    · rw [Bool.not_eq_true] at hsus
      have hmoves := step_moves σ now cancelled s c
      have hlt := hmoves.rank_lt hsus
      have hsettle := settle_step (σ := σ) (s := s) hsus n
      generalize c.step σ now cancelled s = p at hmoves hlt hsettle
      obtain ⟨s', c'⟩ := p
      have hn' : rank s.settings c'.stage ≤ n := Nat.le_of_lt_succ (Nat.lt_of_lt_of_le hlt hn)
      cases hmoves with
      | give | crash | despair =>
        rw [hsettle]
        exact continues_stop n rfl rfl fun e he => by cases he
      | @grant k token locks hk hl =>
        -- from here on nobody else has a say, so the whole write is one piece
        obtain ⟨hc, hfree, -⟩ := LockTable.request_eq_granted_iff.mp hl
        obtain ⟨m, rfl⟩ : ∃ m, n = m + 5 := by
          rw [hk] at hn
          simp only [rank] at hn
          exact ⟨n - 5, by omega⟩
        rw [settle_attempting hk hr hc hfree m]
        exact .writes hv
      | retry =>
        rw [hsettle]
        exact (ih (c := c.goto (.asleep ..)) hr hv hn' (.inr ⟨_, _, rfl⟩)).of_goto
      | wake =>
        rw [hsettle]
        exact (ih (c := c.goto (.attempting _)) hr hv hn' (.inl ⟨_, rfl⟩)).of_goto
      | invalid hk | draft hk | seek hk | missing hk | conflict hk | revise hk | bury hk | record hk
      | reject hk | commit hk | publish hk | release hk =>
        rcases hs with ⟨k, hs⟩ | ⟨k, wakeAt, hs⟩ <;> rw [hs] at hk <;> cases hk
      | doze | ended => exact absurd hlt (Nat.lt_irrefl _)

/-- **A call that waits for its turn** changes nothing when it goes on, or it writes. -/
theorem continues_resume (hs : c.stage = .arrived ∨
    c.request.check = .ok () ∧ ∃ k wakeAt, c.stage = .asleep k wakeAt) :
    Continues σ s c (c.resume σ now cancelled s) := by
  rcases hs with hs | ⟨hv, hs⟩
  · obtain ⟨request, stage⟩ := c
    cases hs
    rw [resume, longestRun, settle_step rfl]
    cases hv : request.check with
    | error v =>
      have hstep : step σ now cancelled s ⟨request, .arrived⟩ = _ := step_of_invalid hv
      rw [hstep]
      exact continues_stop (c := ⟨request, .arrived⟩) _ rfl rfl fun e he => by cases he
    | ok =>
      have hstep : step σ now cancelled s ⟨request, .arrived⟩ = _ := step_of_needsLock hr hv
      have hpos := attemptLimit_pos s.settings
      rw [hstep]
      refine (continues_settle (c := goto ⟨request, .arrived⟩ (.attempting 1)) hr hv ?_
        (.inl ⟨1, rfl⟩)).of_goto
      show 2 * (attemptLimit s.settings - 1) + 6 ≤ _
      omega
  · exact continues_settle hr hv (rank_le_longestRun ..) (.inr hs)

end Waiting

end Call

end CatalogChain
