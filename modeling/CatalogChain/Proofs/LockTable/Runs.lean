import CatalogChain.LockTable
import Mathlib.Tactic.SplitIfs

/-!
# Runs of a table of locks

Locks are taken, kept up and given back while the clock goes on (`LockDesk.run`).  Anybody may ask
for anything at any time: for a lock that another one holds, with a token that is good no longer,
for the release of a key whoever holds it.

* `LockDesk.lock?_of_elsewhere`: what is asked about one key leaves the entries of all others alone.
* `LockDesk.origin`: where an entry comes from.  Its owner was its owner before, or has just been
  granted the lock, with a token that was never drawn before.
-/

namespace CatalogChain

/-- **What can be asked of a table of locks.** -/
inductive LockOp where
  /-- A lock is asked for, with or without waiting and on whatever terms it is held then. -/
  | acquire (cancelled : Bool) (key : String) (ttl : Nat)
  | release (key : String)
  | releaseOwned (key : String) (token : Token)
  | refresh (key : String) (ttl : Nat)
  | refreshOwned (key : String) (token : Token) (ttl : Nat)
  | look (key : String)
  | sweep
  /-- Time passes. -/
  | pass (time : Nat)

/-- **What is answered.** -/
inductive LockAnswer where
  | cancelled
  | refused
  | granted (token : Token)
  | said (b : Bool)
  | count (n : Nat)
  | done

namespace LockOp

/-- The key that is asked about. -/
def key? : LockOp → Option String
  | acquire _ key _ | release key | releaseOwned key _ | refresh key _ | refreshOwned key _ _
  | look key => some key
  | sweep | pass _ => none

/-- The token of the one who asks, if only the owner of a lock may. -/
def token? : LockOp → Option Token
  | releaseOwned _ token | refreshOwned _ token _ => some token
  | _ => none

end LockOp

/-- **A table of locks under a clock.** -/
structure LockDesk where
  now : Nat
  table : LockTable

namespace LockDesk

/-- The desk at which nobody has asked for anything. -/
def opened (now : Nat) : LockDesk := ⟨now, .empty⟩

/-- The entry of a key. -/
def lock? (d : LockDesk) (key : String) : Option Lock := d.table.locks.get? key

/-- **One thing asked**: the answer, and the desk after it. -/
def step (d : LockDesk) : LockOp → LockAnswer × LockDesk
  | .acquire cancelled key ttl =>
    match d.table.request cancelled d.now key ttl with
    | .cancelled => (.cancelled, d)
    | .refused => (.refused, d)
    | .granted token table => (.granted token, { d with table })
  | .release key => (.done, { d with table := d.table.release key })
  | .releaseOwned key token =>
    let (b, table) := d.table.releaseOwned key token
    (.said b, { d with table })
  | .refresh key ttl =>
    let (b, table) := d.table.refresh d.now key ttl
    (.said b, { d with table })
  | .refreshOwned key token ttl =>
    let (b, table) := d.table.refreshOwned d.now key token ttl
    (.said b, { d with table })
  | .look key => (.said (d.table.isLocked d.now key), d)
  | .sweep => (.count (d.table.expired d.now), { d with table := d.table.sweep d.now })
  | .pass time => (.done, { d with now := d.now + time })

/-- The answer. -/
def answer (d : LockDesk) (op : LockOp) : LockAnswer := (d.step op).1

/-- The desk after it. -/
def after (d : LockDesk) (op : LockOp) : LockDesk := (d.step op).2

/-- **A run**: one thing asked after the other. -/
def run (d : LockDesk) (ops : List LockOp) : LockDesk := ops.foldl after d

variable {d : LockDesk} {key : String} {op : LockOp}

theorem run_append (d : LockDesk) (ops later : List LockOp) :
    d.run (ops ++ later) = (d.run ops).run later := List.foldl_append

theorem run_concat (d : LockDesk) (ops : List LockOp) (op : LockOp) :
    d.run (ops ++ [op]) = (d.run ops).after op := by
  rw [run_append]
  rfl

theorem isLocked_iff :
    d.table.isLocked d.now key = true ↔ ∃ l, d.lock? key = some l ∧ d.now < l.expiresAt :=
  LockTable.isLocked_eq_true_iff

/-! ## Locks that are granted -/

theorem step_acquire_cancelled (d : LockDesk) (key : String) (ttl : Nat) :
    d.step (.acquire true key ttl) = (.cancelled, d) := rfl

theorem step_acquire_of_locked (ttl : Nat) (h : d.table.isLocked d.now key = true) :
    d.step (.acquire false key ttl) = (.refused, d) := by
  simp [step, LockTable.request, LockTable.acquire, h]

theorem step_acquire_of_free (ttl : Nat) (h : d.table.isLocked d.now key = false) :
    d.step (.acquire false key ttl) = (.granted (d.table.drawn + 1),
      { d with table :=
        ⟨d.table.locks.put key ⟨d.table.drawn + 1, d.now + ttl⟩, d.table.drawn + 1⟩ }) := by
  simp [step, LockTable.request, LockTable.acquire, h]

/-- Who asks for a lock gets it, or nothing happens. -/
theorem after_acquire (d : LockDesk) (cancelled : Bool) (key : String) (ttl : Nat) :
    d.after (.acquire cancelled key ttl) = d ∨
      d.answer (.acquire cancelled key ttl) = .granted (d.table.drawn + 1) ∧
        d.after (.acquire cancelled key ttl) = { d with table :=
          ⟨d.table.locks.put key ⟨d.table.drawn + 1, d.now + ttl⟩, d.table.drawn + 1⟩ } := by
  unfold after answer
  cases cancelled with
  | true => exact .inl rfl
  | false =>
    cases h : d.table.isLocked d.now key with
    | true =>
      rw [step_acquire_of_locked ttl h]
      exact .inl rfl
    | false =>
      rw [step_acquire_of_free ttl h]
      exact .inr ⟨rfl, rfl⟩

theorem answer_acquire_eq_granted_iff {cancelled : Bool} {ttl : Nat} {token : Token} :
    d.answer (.acquire cancelled key ttl) = .granted token ↔
      cancelled = false ∧ d.table.isLocked d.now key = false ∧ token = d.table.drawn + 1 := by
  unfold answer
  cases cancelled with
  | true => simp [step_acquire_cancelled]
  | false =>
    cases h : d.table.isLocked d.now key with
    | true => simp [step_acquire_of_locked ttl h]
    | false => simp [step_acquire_of_free ttl h, eq_comm]

/-! ## What only the owner may ask -/

theorem isOwnedBy_eq_false {token : Token} (h : ∀ l, d.lock? key = some l → l.owner ≠ token) :
    d.table.isOwnedBy key token = false := by
  rw [Bool.eq_false_iff]
  intro ht
  obtain ⟨l, hl, howner⟩ := LockTable.isOwnedBy_eq_true_iff.mp ht
  exact h l hl howner

/-- **Who does not own a key is told so**, and nothing happens. -/
theorem step_of_not_owner {token : Token} (htoken : op.token? = some token)
    (hkey : op.key? = some key) (h : ∀ l, d.lock? key = some l → l.owner ≠ token) :
    d.step op = (.said false, d) := by
  have hfalse := isOwnedBy_eq_false h
  cases op <;> cases htoken <;> cases hkey
  · simp [step, LockTable.releaseOwned, hfalse]
  · simp [step, LockTable.refreshOwned, hfalse]

/-! ## Entries -/

theorem get?_refresh (t : LockTable) (now : Nat) (key : String) (ttl : Nat) (k : String) :
    (t.refresh now key ttl).2.locks.get? k =
      if key = k then (t.locks.get? k).map fun l => { l with expiresAt := now + ttl }
      else t.locks.get? k := by
  unfold LockTable.refresh
  cases hl : t.locks.get? key with
  | none =>
    split_ifs with hk
    · rw [← hk, hl]
      rfl
    · rfl
  | some l =>
    simp only [Table.get?_put]
    split_ifs with hk
    · rw [← hk, hl]
      rfl
    · rfl

theorem drawn_refresh (t : LockTable) (now : Nat) (key : String) (ttl : Nat) :
    (t.refresh now key ttl).2.drawn = t.drawn := by
  unfold LockTable.refresh
  cases t.locks.get? key <;> rfl

theorem lock?_sweep (d : LockDesk) (key : String) :
    (d.after .sweep).lock? key = (d.lock? key).filter fun l => d.now < l.expiresAt := by
  refine (Table.get?_filter ..).trans (congrArg (Option.filter · _) (funext fun l => ?_))
  rw [Lock.isExpired, ← decide_not, decide_eq_decide, Nat.not_le]

/-- **What is asked about one key leaves all others alone.** -/
theorem lock?_of_elsewhere {k : String} (hop : op.key? = some k) (hk : k ≠ key) :
    (d.after op).lock? key = d.lock? key := by
  cases op with
  | acquire cancelled k ttl =>
    cases hop
    rcases d.after_acquire cancelled k ttl with h | ⟨-, h⟩ <;> rw [h]
    exact (Table.get?_put ..).trans (if_neg hk)
  | release k =>
    cases hop
    exact (Table.get?_erase ..).trans (if_neg hk)
  | releaseOwned k token =>
    cases hop
    simp only [after, step, LockTable.releaseOwned]
    split_ifs
    · exact (Table.get?_erase ..).trans (if_neg hk)
    · rfl
  | refresh k ttl =>
    cases hop
    exact (get?_refresh ..).trans (if_neg hk)
  | refreshOwned k token ttl =>
    cases hop
    simp only [after, step, LockTable.refreshOwned]
    split_ifs
    · exact (get?_refresh ..).trans (if_neg hk)
    · rfl
  | look k => rfl
  | sweep | pass => cases hop

theorem drawn_le_after (d : LockDesk) (op : LockOp) :
    d.table.drawn ≤ (d.after op).table.drawn := by
  cases op with
  | acquire cancelled key ttl =>
    rcases d.after_acquire cancelled key ttl with h | ⟨-, h⟩
    · exact Nat.le_of_eq (congrArg (·.table.drawn) h.symm)
    · rw [h]
      exact Nat.le_succ _
  | releaseOwned key token =>
    simp only [after, step, LockTable.releaseOwned]
    split_ifs <;> exact Nat.le_refl _
  | refresh key ttl => exact Nat.le_of_eq (drawn_refresh ..).symm
  | refreshOwned key token ttl =>
    simp only [after, step, LockTable.refreshOwned]
    split_ifs
    · exact Nat.le_of_eq (drawn_refresh ..).symm
    · exact Nat.le_refl _
  | release | look | sweep | pass => exact Nat.le_refl _

/-- An entry that is refreshed keeps its owner. -/
theorem owner_of_refresh {t : LockTable} {now ttl : Nat} {k : String} {l : Lock}
    (h : (t.refresh now k ttl).2.locks.get? key = some l) :
    ∃ b, t.locks.get? key = some b ∧ b.owner = l.owner := by
  rw [get?_refresh] at h
  split_ifs at h
  · obtain ⟨b, hb, rfl⟩ := Option.map_eq_some_iff.mp h
    exact ⟨b, hb, rfl⟩
  · exact ⟨l, h, rfl⟩

theorem get?_of_erase {t : Table Lock} {k : String} {l : Lock}
    (h : (t.erase k).get? key = some l) : t.get? key = some l := by
  rw [Table.get?_erase] at h
  split_ifs at h
  exact h

/-- **Where an entry comes from**: its owner had one for the key before, or has been granted the
lock just now, with a token that was never drawn before. -/
theorem origin {l : Lock} (h : (d.after op).lock? key = some l) :
    (∃ b, d.lock? key = some b ∧ b.owner = l.owner) ∨
      op.key? = some key ∧ d.answer op = .granted l.owner ∧ l.owner = d.table.drawn + 1 ∧
        (d.after op).table.drawn = l.owner := by
  cases op with
  | acquire cancelled k ttl =>
    rcases d.after_acquire cancelled k ttl with hstay | ⟨hanswer, hafter⟩
    · rw [hstay] at h
      exact .inl ⟨l, h, rfl⟩
    · rw [hafter] at h ⊢
      have hput := (Table.get?_put ..).symm.trans h
      split_ifs at hput with hk
      · cases hput
        exact .inr ⟨congrArg some hk, hanswer, rfl, rfl⟩
      · exact .inl ⟨l, hput, rfl⟩
  | release k => exact .inl ⟨l, get?_of_erase h, rfl⟩
  | releaseOwned k token =>
    simp only [after, step, LockTable.releaseOwned] at h
    split_ifs at h
    · exact .inl ⟨l, get?_of_erase h, rfl⟩
    · exact .inl ⟨l, h, rfl⟩
  | refresh k ttl => exact .inl (owner_of_refresh h)
  | refreshOwned k token ttl =>
    simp only [after, step, LockTable.refreshOwned] at h
    split_ifs at h
    · exact .inl (owner_of_refresh h)
    · exact .inl ⟨l, h, rfl⟩
  | sweep =>
    rw [lock?_sweep] at h
    exact .inl ⟨l, (Option.filter_eq_some_iff.mp h).1, rfl⟩
  | look | pass => exact .inl ⟨l, h, rfl⟩

end LockDesk

end CatalogChain
