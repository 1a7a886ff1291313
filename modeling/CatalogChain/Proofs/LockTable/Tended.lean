import CatalogChain.Proofs.LockTable.Runs
import CatalogChain.Proofs.LockTable.Sweeping

/-!
# Tables of locks with sweepers at work

Sweepers work on the table of locks of a desk while others ask for locks (`TendedDesk.run`).  While
time passes, every sweep that is due is made at its own instant.  What is asked at that very instant
may be asked before or behind the sweep, hence `TendedDesk.wait` makes only the sweeps that are due
before the instant at which it ends, and `TendedOp.settle` those that are due at it.

The clock can also go on while no sweeper gets to work (`TendedOp.leap`).  Sweeps that fall due
meanwhile are late: they are made when the sweepers get to work next, to settle or because time
passes.

* `LockTable.Thinned`: all that sweeps do to a table is to drop entries that are expired.
* `TendedDesk.thinned_step`: nothing else is done by whatever is not asked by a user of locks.
-/

namespace CatalogChain

namespace LockTable

/-- **The lock that is held** on a key at an instant. -/
def held (t : LockTable) (now : Nat) (key : String) : Option Lock :=
  (t.locks.get? key).filter fun l => !l.isExpired now

theorem held_eq_some_iff {t : LockTable} {now : Nat} {key : String} {l : Lock} :
    t.held now key = some l ↔ t.locks.get? key = some l ∧ now < l.expiresAt := by
  rw [held, Option.filter_eq_some_iff, Lock.isExpired, ← decide_not, decide_eq_true_iff, Nat.not_le]

theorem isLocked_eq_isSome_held (t : LockTable) (now : Nat) (key : String) :
    t.isLocked now key = (t.held now key).isSome := Option.isSome_filter.symm

/-- What is held later on is what is held now and not expired by then. -/
theorem held_later (t : LockTable) {now later : Nat} (h : now ≤ later) (key : String) :
    t.held later key = (t.held now key).filter fun l => !l.isExpired later := by
  refine Option.ext fun l => ?_
  rw [Option.filter_eq_some_iff, held_eq_some_iff, held_eq_some_iff, Lock.isExpired, ← decide_not,
    decide_eq_true_iff, Nat.not_le]
  exact ⟨fun hl => ⟨⟨hl.1, by omega⟩, hl.2⟩, fun hl => ⟨hl.1.1, hl.2⟩⟩

theorem get?_sweep (t : LockTable) (instant : Nat) (key : String) :
    (t.sweep instant).locks.get? key = t.held instant key := Table.get?_filter ..

/-- **Tables in which the same locks are held** from an instant on, whatever else is left in
them. -/
structure Alike (now : Nat) (t t' : LockTable) : Prop where
  drawn : t'.drawn = t.drawn
  held : ∀ key, t'.held now key = t.held now key

/-- **A table without some of the entries that are expired** by an instant. -/
structure Thinned (now : Nat) (t t' : LockTable) : Prop extends Alike now t t' where
  get?_of_get? : ∀ key l, t'.locks.get? key = some l → t.locks.get? key = some l

section
variable {now later : Nat} {t t' t'' : LockTable}

theorem Alike.symm (h : Alike now t t') : Alike now t' t :=
  ⟨h.drawn.symm, fun key => (h.held key).symm⟩

theorem Alike.trans (h : Alike now t t') (h' : Alike now t' t'') : Alike now t t'' :=
  ⟨h'.drawn.trans h.drawn, fun key => (h'.held key).trans (h.held key)⟩

theorem Alike.mono (h : Alike now t t') (hle : now ≤ later) : Alike later t t' :=
  ⟨h.drawn, fun key => by rw [held_later t hle, held_later t' hle, h.held]⟩

end

namespace Thinned

variable {now later : Nat} {t t' t'' : LockTable}

theorem refl (now : Nat) (t : LockTable) : Thinned now t t := ⟨⟨rfl, fun _ => rfl⟩, fun _ _ h => h⟩

theorem trans (h : Thinned now t t') (h' : Thinned now t' t'') : Thinned now t t'' :=
  ⟨h.toAlike.trans h'.toAlike, fun key l hl => h.get?_of_get? key l (h'.get?_of_get? key l hl)⟩

theorem mono (h : Thinned now t t') (hle : now ≤ later) : Thinned later t t' :=
  ⟨h.toAlike.mono hle, h.get?_of_get?⟩

/-- A sweep thins the table at its own instant. -/
theorem sweep (now : Nat) (t : LockTable) : Thinned now t (t.sweep now) where
  drawn := rfl
  get?_of_get? key l hl := (held_eq_some_iff.mp ((t.get?_sweep now key).symm.trans hl)).1
  held key := by
    refine Option.ext fun l => ?_
    rw [held_eq_some_iff, get?_sweep, held_eq_some_iff]
    exact ⟨fun hl => hl.1, fun hl => ⟨hl, hl.2⟩⟩

/-- **What is not expired is kept.** -/
theorem get?_of_lt (h : Thinned now t t') {key : String} {l : Lock}
    (hl : t.locks.get? key = some l) (hlive : now < l.expiresAt) : t'.locks.get? key = some l :=
  (held_eq_some_iff.mp ((h.held key).trans (held_eq_some_iff.mpr ⟨hl, hlive⟩))).1

end Thinned

end LockTable

/-! ## What sweepers do -/

theorem Sweeper.thinned_ticks {now : Nat} {instant : Sweeper → Nat} (h : ∀ s, instant s ≤ now)
    (s : Sweeper) (n : Nat) (locks : LockTable) :
    locks.Thinned now (s.ticks instant n locks).2 := by
  refine ticks_induction (motive := fun _ t => locks.Thinned now t) (fun s t ht => ?_)
    (.refl now locks) n
  rcases s.tick_cases (instant s) t with ⟨-, htick⟩ | ⟨-, htick⟩ <;> rw [htick]
  · exact ht
  · exact ht.trans ((LockTable.Thinned.sweep ..).mono (h s))

theorem Sweeper.thinned_passTo (s : Sweeper) (now : Nat) (locks : LockTable) :
    locks.Thinned now (s.passTo now locks).2 :=
  thinned_ticks (fun _ => Nat.min_le_right ..) s _ locks

theorem Sweeper.thinned_rouse (s : Sweeper) (now : Nat) (locks : LockTable) :
    locks.Thinned now (s.rouse now locks).2 := thinned_ticks (fun _ => Nat.le_refl now) s _ locks

theorem Roster.thinned_workAll {now : Nat} {work : Sweeper → LockTable → Sweeper × LockTable}
    (hwork : ∀ (s : Sweeper) (t : LockTable), t.Thinned now (work s t).2)
    (ws : List (Nat × Sweeper)) (locks : LockTable) :
    locks.Thinned now (workAll work ws locks).2 :=
  workAll_induction (motive := locks.Thinned now) (fun s t ht => ht.trans (hwork s t))
    (.refl now locks) ws

theorem Roster.thinned_start (r : Roster) (cancelled : Bool) (interval now : Nat)
    (locks : LockTable) : locks.Thinned now (r.start cancelled interval now locks).2 := by
  unfold start Sweeper.start
  cases cancelled with
  | true => exact .refl now locks
  | false =>
    by_cases hnone : interval = 0
    · rw [if_pos hnone]
      exact .refl now locks
    · rw [if_neg hnone]
      exact .sweep now locks

/-! ## Runs -/

/-- Only the passing of time moves the clock. -/
theorem LockDesk.now_after (d : LockDesk) {op : LockOp} (h : ∀ time, op ≠ .pass time) :
    (d.after op).now = d.now := by
  cases op with
  | pass time => exact absurd rfl (h time)
  | acquire cancelled key ttl =>
    rcases d.after_acquire cancelled key ttl with h | ⟨-, h⟩ <;> rw [h]
  | release | releaseOwned | refresh | refreshOwned | look | sweep => rfl

/-- **What can happen at a desk** on whose locks sweepers work. -/
inductive TendedOp where
  /-- Something is asked of the table of locks, or time passes. -/
  | ask (op : LockOp)
  /-- The sweepers get to work at this very instant. -/
  | settle
  /-- The clock goes on, and no sweeper gets to work. -/
  | leap (time : Nat)
  /-- A sweeper is started.  One that is cancelled beforehand does not get to work. -/
  | start (cancelled : Bool) (interval : Nat)
  /-- A sweeper is stopped. -/
  | stop (number : Nat)

namespace TendedOp

/-- What a user of locks asks; all else is done for the upkeep of the table, or is time. -/
def user? : TendedOp → Option LockOp
  | ask (.pass _) | ask .sweep | settle | leap _ | start .. | stop _ => none
  | ask op => some op

/-- The time that passes. -/
def time : TendedOp → Nat
  | ask (.pass time) | leap time => time
  | _ => 0

theorem eq_ask_of_user? {op : TendedOp} {asked : LockOp} (h : op.user? = some asked) :
    op = ask asked := by
  cases op with
  | ask op => cases op <;> cases h <;> rfl
  | settle | leap | start | stop => cases h

end TendedOp

/-- **A table of locks under a clock, with sweepers at work on it.** -/
structure TendedDesk where
  desk : LockDesk
  roster : Roster

namespace TendedDesk

/-- The instant. -/
def now (d : TendedDesk) : Nat := d.desk.now

/-- The table of locks. -/
def table (d : TendedDesk) : LockTable := d.desk.table

/-- **Gets the sweepers to work** at this instant. -/
def rouse (d : TendedDesk) : TendedDesk :=
  let (roster, table) := d.roster.rouse d.now d.table
  ⟨{ d.desk with table }, roster⟩

/-- **Lets time pass** up to an instant, with all the sweeps that are due by then: those that are
overdue are made at once, the others each at the instant at which it is due. -/
def passTo (d : TendedDesk) (now : Nat) : TendedDesk :=
  let (roster, table) := d.rouse.roster.passTo now d.rouse.table
  ⟨⟨now, table⟩, roster⟩

/-- **Lets some time pass**, with all the sweeps that are due before it is over. -/
def wait (d : TendedDesk) : Nat → TendedDesk
  | 0 => d
  | time + 1 =>
    let d' := d.passTo (d.now + time)
    { d' with desk := { d'.desk with now := d.now + (time + 1) } }

/-- Something is asked, or time passes. -/
def ask (d : TendedDesk) : LockOp → TendedDesk
  | .pass time => d.wait time
  | op => { d with desk := d.desk.after op }

/-- Starts a sweeper. -/
def start (d : TendedDesk) (cancelled : Bool) (interval : Nat) : TendedDesk :=
  let (roster, table) := d.roster.start cancelled interval d.now d.table
  ⟨{ d.desk with table }, roster⟩

/-- **One step.** -/
def step (d : TendedDesk) : TendedOp → TendedDesk
  | .ask op => d.ask op
  | .settle => d.rouse
  | .leap time => { d with desk := { d.desk with now := d.now + time } }
  | .start cancelled interval => d.start cancelled interval
  | .stop number => { d with roster := d.roster.stop number }

/-- **A run**: one step after the other. -/
def run (d : TendedDesk) (ops : List TendedOp) : TendedDesk := ops.foldl step d

variable (d : TendedDesk)

theorem thinned_rouse : d.table.Thinned d.now d.rouse.table :=
  Roster.thinned_workAll (fun s t => s.thinned_rouse d.now t) d.roster.workers d.table

variable {d} in
theorem thinned_passTo {now : Nat} (h : d.now ≤ now) : d.table.Thinned now (d.passTo now).table :=
  (d.thinned_rouse.mono h).trans
    (Roster.thinned_workAll (fun s t => s.thinned_passTo now t) d.rouse.roster.workers
      d.rouse.table)

theorem thinned_wait (time : Nat) : d.table.Thinned (d.now + time) (d.wait time).table := by
  cases time with
  | zero => exact .refl _ d.table
  | succ time => exact (thinned_passTo (Nat.le_add_right d.now time)).mono (Nat.le_succ _)

theorem now_wait (time : Nat) : (d.wait time).now = d.now + time := by
  cases time <;> rfl

/-- What is asked at an instant is done at it. -/
theorem step_ask {op : LockOp} (h : ∀ time, op ≠ .pass time) :
    d.step (.ask op) = { d with desk := d.desk.after op } := by
  cases op with
  | pass time => exact absurd rfl (h time)
  | acquire | release | releaseOwned | refresh | refreshOwned | look | sweep => rfl

theorem now_step (op : TendedOp) : (d.step op).now = d.now + op.time := by
  cases op with
  | ask op =>
    by_cases hpass : ∃ time, op = .pass time
    · obtain ⟨time, rfl⟩ := hpass
      exact d.now_wait time
    · have hop : ∀ time, op ≠ .pass time := fun time h => hpass ⟨time, h⟩
      rw [d.step_ask hop]
      refine (d.desk.now_after hop).trans ?_
      cases op <;> first | rfl | exact absurd rfl (hop _)
  | settle | leap | start | stop => rfl

theorem now_le_run (ops : List TendedOp) : d.now ≤ (d.run ops).now := by
  induction ops generalizing d with
  | nil => exact Nat.le_refl _
  | cons op ops ih =>
    refine Nat.le_trans ?_ (ih (d.step op))
    rw [d.now_step op]
    exact Nat.le_add_right ..

/-- **What no user asks drops only what is expired** by the end of the step. -/
theorem thinned_step {op : TendedOp} (h : op.user? = none) :
    d.table.Thinned (d.step op).now (d.step op).table := by
  rw [now_step]
  cases op with
  | ask op =>
    cases op with
    | pass time => exact d.thinned_wait time
    | sweep => exact .sweep d.now d.table
    | acquire | release | releaseOwned | refresh | refreshOwned | look => cases h
  | settle => exact d.thinned_rouse
  | leap time => exact .refl (d.now + time) d.table
  | start cancelled interval => exact d.roster.thinned_start cancelled interval d.now d.table
  | stop number => exact .refl d.now d.table

end TendedDesk

end CatalogChain
