import CatalogChain.Proofs.LockTable.Runs
import Mathlib.Logic.Basic

/-!
# Locks are exclusive

Who is granted a lock has a tenure, and its term is what the grant or the last refresh says
(`LockDesk.Tenure`).  The definition goes by what is asked and never looks at the table of locks.
What holds through all of a run links it to the table:

* `Tenure.lock?`: as long as the tenure lasts, the one entry of the key is the one of its owner,
  with that term.  So nobody else gets the lock, sweeping leaves it alone, and no other token is
  good for it.
* `Confined`: a token that has been drawn is found at no other keys than it was before, since every
  grant draws a new one.  So a token that is found nowhere is never found again.

`LockDesk.exclusive_run` says this of every run from the beginning.
-/

namespace CatalogChain

namespace LockOp

/-- **What ends the tenure** of an owner of a key before its term: that the owner gives the lock
back, or that the key is released whoever holds it. -/
def Ends (key : String) (token : Token) (op : LockOp) : Prop :=
  op = release key ∨ op = releaseOwned key token

/-- **The term of a tenure** behind something that is asked: a refresh sets it anew. -/
def term (key : String) (token : Token) (now term : Nat) : LockOp → Nat
  | refresh k ttl => if k = key then now + ttl else term
  | refreshOwned k t ttl => if k = key ∧ t = token then now + ttl else term
  | _ => term

theorem term_of_elsewhere {op : LockOp} {k key : String} {token : Token} {now term : Nat}
    (hop : op.key? = some k) (hk : k ≠ key) : op.term key token now term = term := by
  cases op with
  | refresh k' ttl =>
    cases hop
    rw [LockOp.term, if_neg hk]
  | refreshOwned k' t ttl =>
    cases hop
    rw [LockOp.term, if_neg fun h => hk h.1]
  | acquire | release | releaseOwned | look | sweep | pass => rfl

end LockOp

namespace LockDesk

/-- **A token was granted the lock on a key** in the course of a run. -/
def Granted (start : LockDesk) (key : String) (token : Token) (ops : List LockOp) : Prop :=
  ∃ before ttl later, ops = before ++ .acquire false key ttl :: later ∧
    (start.run before).answer (.acquire false key ttl) = .granted token

/-- **The tenure of an owner of a key** at the end of a run, with its term.  It begins with a grant,
and goes on over everything that is asked before the term is over and that does not end it. -/
inductive Tenure (start : LockDesk) (key : String) (token : Token) : List LockOp → Nat → Prop
  | grant {ops : List LockOp} {ttl : Nat}
      (h : (start.run ops).answer (.acquire false key ttl) = .granted token) :
      Tenure start key token (ops ++ [.acquire false key ttl]) ((start.run ops).now + ttl)
  | last {ops : List LockOp} {term : Nat} {op : LockOp} (h : Tenure start key token ops term)
      (hterm : (start.run ops).now < term) (hop : ¬ op.Ends key token) :
      Tenure start key token (ops ++ [op]) (op.term key token (start.run ops).now term)

/-- **A token has lost a key**: it was granted the lock on it, and then another grant was made, or
the entry of the key is not its own any more. -/
inductive Lost (start : LockDesk) (key : String) (token : Token) : List LockOp → Prop
  | superseded {ops : List LockOp} {ttl : Nat} {other : Token}
      (h : start.Granted key token ops)
      (hg : (start.run ops).answer (.acquire false key ttl) = .granted other) :
      Lost start key token (ops ++ [.acquire false key ttl])
  | removed {ops : List LockOp} (h : start.Granted key token ops)
      (hr : ∀ l, (start.run ops).lock? key = some l → l.owner ≠ token) :
      Lost start key token ops

/-- **What a run says of exclusivity** at its end, about whatever is asked next. -/
structure Exclusive (start : LockDesk) (ops : List LockOp) : Prop where
  granted_iff : ∀ key ttl, (∃ token,
      (start.run ops).answer (.acquire false key ttl) = .granted token) ↔
    ¬ ∃ l, (start.run ops).lock? key = some l ∧ (start.run ops).now < l.expiresAt
  cancelled : ∀ key ttl, (start.run ops).step (.acquire true key ttl) = (.cancelled, start.run ops)
  elsewhere : ∀ op k key, op.key? = some k → k ≠ key →
    ((start.run ops).after op).lock? key = (start.run ops).lock? key
  refused : ∀ key token term, start.Tenure key token ops term → (start.run ops).now < term →
    ∀ ttl, (start.run ops).step (.acquire false key ttl) = (.refused, start.run ops)
  kept : ∀ key token term, start.Tenure key token ops term → (start.run ops).now < term →
    (start.run ops).lock? key = some ⟨token, term⟩ ∧
      ((start.run ops).after .sweep).lock? key = some ⟨token, term⟩
  foreign : ∀ key token term, start.Tenure key token ops term → (start.run ops).now < term →
    ∀ op other, op.key? = some key → op.token? = some other → other ≠ token →
      (start.run ops).step op = (.said false, start.run ops)
  dead : ∀ key token, start.Lost key token ops → ∀ later op, op.token? = some token →
    (start.run (ops ++ later)).step op = (.said false, start.run (ops ++ later))

/-! ## Tenures -/

section Tenure
variable {d : LockDesk} {key : String} {token : Token} {term : Nat}
  (he : d.lock? key = some ⟨token, term⟩)
include he

/-- Who asks with another token is told no. -/
theorem step_of_foreign {op : LockOp} {other : Token} (htoken : op.token? = some other)
    (hkey : op.key? = some key) (hne : other ≠ token) : d.step op = (.said false, d) := by
  refine step_of_not_owner htoken hkey fun l hl => ?_
  rw [← Option.some.inj (he.symm.trans hl)]
  exact Ne.symm hne

variable (hterm : d.now < term)
include hterm

theorem isLocked_of_lock : d.table.isLocked d.now key = true :=
  LockTable.isLocked_eq_true_iff.mpr ⟨_, he, hterm⟩

/-- **One step of a tenure.** -/
theorem lock?_after {op : LockOp} (hop : ¬ op.Ends key token) :
    (d.after op).lock? key = some ⟨token, op.term key token d.now term⟩ := by
  by_cases hkey : ∃ k, op.key? = some k ∧ k ≠ key
  · -- what is asked about another key does not set the term either
    obtain ⟨k, hk, hne⟩ := hkey
    rw [lock?_of_elsewhere hk hne, he, LockOp.term_of_elsewhere hk hne]
  · have hself : ∀ k, op.key? = some k → k = key := fun k hk =>
      not_not.mp fun hne => hkey ⟨k, hk, hne⟩
    cases op with
    | acquire cancelled k ttl =>
      obtain rfl := hself k rfl
      have hstay : d.after (.acquire cancelled k ttl) = d := by
        rcases d.after_acquire cancelled k ttl with h | ⟨hg, -⟩
        · exact h
        · have hfree := (answer_acquire_eq_granted_iff.mp hg).2.1
          rw [isLocked_of_lock he hterm] at hfree
          cases hfree
      rw [hstay]
      exact he
    | release k => exact absurd (.inl (congrArg _ (hself k rfl))) hop
    | releaseOwned k t =>
      obtain rfl := hself k rfl
      have hne : t ≠ token := fun ht => hop (.inr (by rw [ht]))
      rw [after, step_of_foreign he rfl rfl hne]
      exact he
    | refresh k ttl =>
      obtain rfl := hself k rfl
      refine (get?_refresh ..).trans ?_
      rw [if_pos rfl, show d.table.locks.get? k = _ from he, LockOp.term, if_pos rfl]
      rfl
    | refreshOwned k t ttl =>
      obtain rfl := hself k rfl
      by_cases ht : t = token
      · have howned : d.table.isOwnedBy k t = true :=
          LockTable.isOwnedBy_eq_true_iff.mpr ⟨_, he, ht.symm⟩
        simp only [after, step, LockTable.refreshOwned, if_pos howned]
        refine (get?_refresh ..).trans ?_
        rw [if_pos rfl, show d.table.locks.get? k = _ from he, LockOp.term, if_pos ⟨rfl, ht⟩]
        rfl
      · rw [after, step_of_foreign he rfl rfl ht, LockOp.term, if_neg fun h => ht h.2]
        exact he
    | sweep =>
      rw [lock?_sweep, he, Option.filter_some, if_pos (decide_eq_true hterm)]
      rfl
    | look | pass => exact he

end Tenure

variable {start d : LockDesk} {ops : List LockOp} {key : String} {token : Token} {term : Nat}

/-- **As long as a tenure lasts, the entry of the key is the one of its owner**, with its term. -/
theorem Tenure.lock? (h : start.Tenure key token ops term) :
    (start.run ops).lock? key = some ⟨token, term⟩ := by
  -- the term is not over before any step of the tenure, so each of them keeps the entry
  induction h with
  | @grant ops ttl hg =>
    obtain ⟨-, hfree, rfl⟩ := answer_acquire_eq_granted_iff.mp hg
    rw [run_concat, after, step_acquire_of_free ttl hfree]
    exact (Table.get?_put ..).trans (if_pos rfl)
  | @last ops term op h hterm hop ih =>
    rw [run_concat]
    exact lock?_after ih hterm hop

/-! ## Tokens -/

/-- **A token is confined** to keys with a property: it has been drawn, and it is found at no other
keys. -/
def Confined (d : LockDesk) (token : Token) (p : String → Prop) : Prop :=
  token ≤ d.table.drawn ∧ ∀ key l, d.lock? key = some l → l.owner = token → p key

/-- All tokens in use have been drawn. -/
def Drawn (d : LockDesk) : Prop := ∀ key l, d.lock? key = some l → l.owner ≤ d.table.drawn

theorem drawn_opened (now : Nat) : (opened now).Drawn := by
  intro key l hl
  cases hl

theorem Drawn.after (h : d.Drawn) (op : LockOp) : (d.after op).Drawn := by
  intro key l hl
  have hle := d.drawn_le_after op
  rcases origin hl with ⟨b, hb, howner⟩ | ⟨-, -, -, hdrawn⟩
  · exact Nat.le_trans (howner ▸ h key b hb) hle
  · exact Nat.le_of_eq hdrawn.symm

theorem Drawn.run (h : d.Drawn) (ops : List LockOp) : (d.run ops).Drawn := by
  induction ops generalizing d with
  | nil => exact h
  | cons op ops ih => exact ih (h.after op)

theorem Confined.after {p : String → Prop} (h : d.Confined token p) (op : LockOp) :
    (d.after op).Confined token p := by
  refine ⟨Nat.le_trans h.1 (d.drawn_le_after op), fun key l hl howner => ?_⟩
  rcases origin hl with ⟨b, hb, hsame⟩ | ⟨-, -, hnew, -⟩
  · exact h.2 key b hb (hsame.trans howner)
  · -- the token that is drawn now is a new one
    rw [← howner, hnew] at h
    exact absurd h.1 (Nat.not_succ_le_self _)

/-- **A token stays confined.** -/
theorem Confined.run {p : String → Prop} (h : d.Confined token p) (ops : List LockOp) :
    (d.run ops).Confined token p := by
  induction ops generalizing d with
  | nil => exact h
  | cons op ops ih => exact ih (h.after op)

/-- A token that has just been granted is found at its key only. -/
theorem confined_of_grant (hd : d.Drawn) {ttl : Nat}
    (hg : d.answer (.acquire false key ttl) = .granted token) :
    (d.after (.acquire false key ttl)).Confined token (· = key) := by
  obtain ⟨-, hfree, rfl⟩ := answer_acquire_eq_granted_iff.mp hg
  refine ⟨?_, fun k l hl howner => ?_⟩
  · exact Nat.le_of_eq (by rw [after, step_acquire_of_free ttl hfree])
  · rcases origin hl with ⟨b, hb, hsame⟩ | ⟨hk, -⟩
    · have hle := hd k b hb
      rw [hsame, howner] at hle
      exact absurd hle (Nat.not_succ_le_self _)
    · exact (Option.some.inj hk).symm

theorem Granted.confined (hd : start.Drawn) (h : start.Granted key token ops) :
    (start.run ops).Confined token (· = key) := by
  obtain ⟨before, ttl, later, rfl, hg⟩ := h
  rw [run_append]
  exact (confined_of_grant (hd.run before) hg).run later

/-- **A token that has lost its key is found nowhere.** -/
theorem Lost.confined (hd : start.Drawn) (h : start.Lost key token ops) :
    (start.run ops).Confined token fun _ => False := by
  cases h with
  | @superseded ops ttl other h hg =>
    have hconf := h.confined hd
    have hafter := hconf.after (.acquire false key ttl)
    rw [run_concat]
    obtain ⟨-, hfree, -⟩ := answer_acquire_eq_granted_iff.mp hg
    refine ⟨hafter.1, fun k l hl howner => ?_⟩
    -- the entry of its key belongs to the token that has been drawn last
    cases hafter.2 k l hl howner
    rw [after, step_acquire_of_free ttl hfree] at hl
    have hput := (Table.get?_put ..).symm.trans hl
    rw [if_pos rfl] at hput
    have hle := hconf.1
    rw [← howner, ← Option.some.inj hput] at hle
    exact absurd hle (Nat.not_succ_le_self _)
  | removed h hr =>
    have hconf := h.confined hd
    refine ⟨hconf.1, fun k l hl howner => ?_⟩
    cases hconf.2 k l hl howner
    exact hr l hl howner

theorem step_of_confined (h : d.Confined token fun _ => False) {op : LockOp}
    (hop : op.token? = some token) : d.step op = (.said false, d) := by
  have hkey : ∃ k, op.key? = some k := by
    cases op <;> cases hop <;> exact ⟨_, rfl⟩
  obtain ⟨k, hk⟩ := hkey
  exact step_of_not_owner hop hk fun l hl howner => h.2 k l hl howner

/-! ## Runs -/

/-- **Locks are exclusive** through all of a run. -/
theorem exclusive_run (now : Nat) (ops : List LockOp) : (opened now).Exclusive ops where
  granted_iff key ttl := by
    rw [← isLocked_iff, Bool.not_eq_true]
    constructor
    · rintro ⟨token, h⟩
      exact (answer_acquire_eq_granted_iff.mp h).2.1
    · intro h
      exact ⟨_, answer_acquire_eq_granted_iff.mpr ⟨rfl, h, rfl⟩⟩
  cancelled key ttl := step_acquire_cancelled _ key ttl
  elsewhere op k key hop hk := lock?_of_elsewhere hop hk
  refused key token term h hterm ttl :=
    step_acquire_of_locked ttl (isLocked_of_lock h.lock? hterm)
  kept key token term h hterm := by
    refine ⟨h.lock?, ?_⟩
    have hsweep : ¬ LockOp.sweep.Ends key token := by
      rintro (h | h) <;> cases h
    exact lock?_after h.lock? hterm hsweep
  foreign key token term h _ op other hkey htoken hne :=
    step_of_foreign h.lock? htoken hkey hne
  dead key token h later op hop := by
    have hlost := (h.confined (drawn_opened now)).run later
    rw [← run_append] at hlost
    exact step_of_confined hlost hop

/-- Who comes back with the token of a lock that is expired does not release the next one. -/
example : ((opened 0).run [.acquire false "p" 10, .pass 10, .acquire false "p" 10]).answer
    (.releaseOwned "p" 1) = .said false := rfl

end LockDesk

end CatalogChain
