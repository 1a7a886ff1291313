import CatalogChain.Service.Deployment
import Mathlib.Tactic.SplitIfs

/-!
# When a lock gets free

A key is free from the instant on at which its lock expires (`LockTable.freeFrom`).  Sweeping does
not matter to that: it drops only what is expired, so it changes for no key whether the key is
locked, now or later (`LockTable.isLocked_sweep`).  Hence nothing that happens while time passes
does (`Deployment.FreesAt.passTo`).
-/

namespace CatalogChain

namespace LockTable

/-- The instant from which on a key is free; without an entry it is free at all times. -/
def freeFrom (t : LockTable) (key : String) : Nat := ((t.locks.get? key).map Lock.expiresAt).getD 0

theorem isLocked_eq_decide (t : LockTable) (now : Nat) (key : String) :
    t.isLocked now key = decide (now < t.freeFrom key) := by
  unfold isLocked freeFrom
  cases t.locks.get? key with
  | none => exact (decide_eq_false (Nat.not_lt_zero now)).symm
  | some l =>
    show (!decide (l.expiresAt ≤ now)) = decide (now < l.expiresAt)
    rw [← decide_not, decide_eq_decide]
    exact Nat.not_le

/-- Whether a key is locked depends on its entry only. -/
theorem isLocked_congr {t t' : LockTable} {key : String}
    (h : t'.locks.get? key = t.locks.get? key) (now : Nat) :
    t'.isLocked now key = t.isLocked now key := by
  rw [isLocked, isLocked, h]

/-- **A sweep lets nobody in and keeps nobody out**, at its own instant or later. -/
theorem isLocked_sweep (t : LockTable) {instant now : Nat} (h : instant ≤ now) (key : String) :
    (t.sweep instant).isLocked now key = t.isLocked now key := by
  unfold isLocked sweep
  rw [Table.get?_filter]
  cases t.locks.get? key with
  | none => rfl
  | some l =>
    cases hl : l.isExpired instant with
    | true => simp [hl, Lock.isExpired_mono hl h]
    | false => simp [hl]

end LockTable

namespace Sweeper

variable {s : Sweeper} {instant : Sweeper → Nat} {now : Nat} {locks : LockTable}

/-- **A sweep is made if it is due**, else nothing happens. -/
theorem tick_cases (s : Sweeper) (now : Nat) (locks : LockTable) :
    (s.interval = 0 ∨ now < s.next) ∧ s.tick now locks = (s, locks) ∨
      (s.interval ≠ 0 ∧ s.next ≤ now) ∧ s.tick now locks = (s.rearm now, locks.sweep now) := by
  unfold tick
  by_cases h : s.interval = 0 ∨ now < s.next
  · rw [if_pos h]
    exact .inl ⟨h, rfl⟩
  · rw [if_neg h]
    rw [not_or, Nat.not_lt] at h
    exact .inr ⟨h, rfl⟩

theorem ticks_succ (instant : Sweeper → Nat) (n : Nat) (s : Sweeper) (locks : LockTable) :
    s.ticks instant (n + 1) locks =
      (s.tick (instant s) locks).1.ticks instant n (s.tick (instant s) locks).2 := rfl

/-- **What every sweep keeps**, any number of them keep. -/
theorem ticks_induction {motive : Sweeper → LockTable → Prop}
    (hstep : ∀ s t, motive s t → motive (s.tick (instant s) t).1 (s.tick (instant s) t).2)
    (h : motive s locks) (n : Nat) :
    motive (s.ticks instant n locks).1 (s.ticks instant n locks).2 := by
  induction n generalizing s locks with
  | zero => exact h
  | succ n ih => exact ih (hstep s locks h)

theorem isLocked_tick (s : Sweeper) {instant now : Nat} (h : instant ≤ now) (locks : LockTable)
    (key : String) : (s.tick instant locks).2.isLocked now key = locks.isLocked now key := by
  rcases s.tick_cases instant locks with ⟨-, htick⟩ | ⟨-, htick⟩ <;> rw [htick]
  exact locks.isLocked_sweep h key

theorem isLocked_passTo (s : Sweeper) {instant now : Nat} (h : instant ≤ now) (locks : LockTable)
    (key : String) : (s.passTo instant locks).2.isLocked now key = locks.isLocked now key :=
  ticks_induction (motive := fun _ t => t.isLocked now key = locks.isLocked now key)
    (fun s t ht => (s.isLocked_tick (Nat.le_trans (Nat.min_le_right ..) h) t key).trans ht) rfl _

end Sweeper

namespace Roster

/-- **What the work of each keeps**, the work of all keeps. -/
theorem workAll_induction {work : Sweeper → LockTable → Sweeper × LockTable}
    {motive : LockTable → Prop} (hwork : ∀ s t, motive t → motive (work s t).2)
    {locks : LockTable} (h : motive locks) (ws : List (Nat × Sweeper)) :
    motive (workAll work ws locks).2 := by
  induction ws generalizing locks with
  | nil => exact h
  | cons w ws ih => exact ih (hwork w.2 locks h)

theorem isLocked_passTo (r : Roster) {instant now : Nat} (h : instant ≤ now) (locks : LockTable)
    (key : String) : (r.passTo instant locks).2.isLocked now key = locks.isLocked now key :=
  workAll_induction (motive := fun t => t.isLocked now key = locks.isLocked now key)
    (fun s t ht => (s.isLocked_passTo h t key).trans ht) rfl r.workers

end Roster

namespace Deployment

/-- **From now on a key gets free at an instant**: it is locked before it, and not later on. -/
def FreesAt (d : Deployment) (key : String) (instant : Nat) : Prop :=
  ∀ now, d.now ≤ now → d.service.locks.isLocked now key = decide (now < instant)

theorem freesAt_freeFrom (d : Deployment) (key : String) :
    d.FreesAt key (d.service.locks.freeFrom key) :=
  fun now _ => d.service.locks.isLocked_eq_decide now key

variable {d : Deployment} {key : String} {instant : Nat} (h : d.FreesAt key instant)
include h

/-- **Time may pass** meanwhile, with all the sweeps that fall due. -/
theorem FreesAt.passTo {now : Nat} (hnow : d.now ≤ now) : (d.passTo now).FreesAt key instant :=
  fun later hlater => (d.roster.isLocked_passTo hlater d.service.locks key).trans
    (h later (Nat.le_trans hnow hlater))

/-- Others may change all but the entry of the key. -/
theorem FreesAt.withService {s : Service}
    (hs : s.locks.locks.get? key = d.service.locks.locks.get? key) :
    FreesAt { d with service := s } key instant :=
  fun now hnow => (LockTable.isLocked_congr hs now).trans (h now hnow)

end Deployment

end CatalogChain
