import CatalogChain.Table

/-!
# Locks

A lock on a key belongs to the owner that took it until it is released or its time is over.  An
owner is known by a token, which is drawn when the lock is taken and never again.  An expired lock
no longer keeps others out; its entry stays until somebody takes the lock or the table is swept.

Instants are milliseconds since the start of the clock.  They have no end here, so a lock can be
taken for any time.  A clock whose instants have an end needs more: the time for which a lock is
taken or refreshed must be over before that end.  A time that settings can give, which is below
2^64 milliseconds, is short enough for a clock that counts seconds with 63 bits.
-/

namespace CatalogChain

/-- **The token** of an owner of a lock. -/
abbrev Token := Nat

/-- A lock: its owner and the instant from which on it is expired. -/
structure Lock where
  owner : Token
  expiresAt : Nat
deriving DecidableEq, Repr

/-- Whether a lock is expired at an instant. -/
def Lock.isExpired (l : Lock) (now : Nat) : Bool := l.expiresAt ≤ now

/-- What is expired stays so. -/
theorem Lock.isExpired_mono {l : Lock} {now later : Nat} (h : l.isExpired now = true)
    (hle : now ≤ later) : l.isExpired later = true := by
  unfold isExpired at h ⊢
  have hnow := of_decide_eq_true h
  exact decide_eq_true (by omega)

/-- **The table of locks**, with the number of tokens drawn so far. -/
structure LockTable where
  locks : Table Lock
  drawn : Nat

/-- **What comes of asking for a lock.** -/
inductive Acquisition where
  /-- Who asks is cancelled. -/
  | cancelled
  /-- Another owner holds the lock. -/
  | refused
  /-- The lock is taken; its new owner is known by the token. -/
  | granted (token : Token) (locks : LockTable)

namespace LockTable

/-- The table without locks. -/
def empty : LockTable := ⟨.empty, 0⟩

instance : Inhabited LockTable := ⟨empty⟩

/-- A token that is never drawn. -/
def nobody : Token := 0

/-- Whether a key is locked at an instant. -/
def isLocked (t : LockTable) (now : Nat) (key : String) : Bool :=
  (t.locks.get? key).any fun l => !l.isExpired now

/-- **Taking a lock** for `ttl` milliseconds: the token of the new owner, unless the key is
locked.  It is assumed that `now + ttl` is an instant of the clock. -/
def acquire (t : LockTable) (now : Nat) (key : String) (ttl : Nat) : Option (Token × LockTable) :=
  if t.isLocked now key then none
  else
    let token := t.drawn + 1
    some (token, ⟨t.locks.put key ⟨token, now + ttl⟩, token⟩)

/-- **Asking for a lock**: one who is cancelled gets none. -/
def request (t : LockTable) (cancelled : Bool) (now : Nat) (key : String) (ttl : Nat) :
    Acquisition :=
  if cancelled then .cancelled
  else
    match t.acquire now key ttl with
    | some (token, t) => .granted token t
    | none => .refused

/-- Releases a key whoever holds it. -/
def release (t : LockTable) (key : String) : LockTable := { t with locks := t.locks.erase key }

/-- Whether the entry of a key belongs to an owner, expired or not. -/
def isOwnedBy (t : LockTable) (key : String) (token : Token) : Bool :=
  (t.locks.get? key).any fun l => l.owner = token

/-- **Releases a key for its owner**, and says whether it was the owner who asked; nothing happens
for anybody else. -/
def releaseOwned (t : LockTable) (key : String) (token : Token) : Bool × LockTable :=
  if t.isOwnedBy key token then (true, t.release key) else (false, t)

/-- Lets the lock on a key expire `ttl` milliseconds from now, and says whether there is an
entry.  It is assumed that `now + ttl` is an instant of the clock. -/
def refresh (t : LockTable) (now : Nat) (key : String) (ttl : Nat) : Bool × LockTable :=
  match t.locks.get? key with
  | some l => (true, { t with locks := t.locks.put key { l with expiresAt := now + ttl } })
  | none => (false, t)

/-- The same for the owner of the lock; nothing happens for anybody else. -/
def refreshOwned (t : LockTable) (now : Nat) (key : String) (token : Token) (ttl : Nat) :
    Bool × LockTable :=
  if t.isOwnedBy key token then t.refresh now key ttl else (false, t)

theorem isLocked_eq_true_iff {t : LockTable} {now : Nat} {key : String} :
    t.isLocked now key = true ↔ ∃ l, t.locks.get? key = some l ∧ now < l.expiresAt := by
  unfold isLocked Lock.isExpired
  cases t.locks.get? key <;> simp

theorem isOwnedBy_eq_true_iff {t : LockTable} {key : String} {token : Token} :
    t.isOwnedBy key token = true ↔ ∃ l, t.locks.get? key = some l ∧ l.owner = token := by
  unfold isOwnedBy
  cases t.locks.get? key <;> simp

theorem request_eq_granted_iff {t t' : LockTable} {cancelled : Bool} {now : Nat} {key : String}
    {ttl : Nat} {token : Token} :
    t.request cancelled now key ttl = .granted token t' ↔
      cancelled = false ∧ t.isLocked now key = false ∧ token = t.drawn + 1 ∧
        t' = ⟨t.locks.put key ⟨token, now + ttl⟩, token⟩ := by
  unfold request acquire
  cases cancelled <;> cases t.isLocked now key <;> grind

/-- The number of entries, expired ones included. -/
def size (t : LockTable) : Nat := t.locks.size

/-- The number of entries that are expired. -/
def expired (t : LockTable) (now : Nat) : Nat := t.locks.values.countP fun l => l.isExpired now

/-- **Drops the expired entries.** -/
def sweep (t : LockTable) (now : Nat) : LockTable :=
  { t with locks := t.locks.filter fun _ l => !l.isExpired now }

end LockTable

end CatalogChain
