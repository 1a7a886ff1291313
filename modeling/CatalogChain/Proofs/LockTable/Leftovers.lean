import CatalogChain.Proofs.LockTable.Tended

/-!
# How long expired entries stay

A sweeper that was started at an instant is at work on a table of locks for good, unless it is
stopped.  Behind each of its sweeps no entry is expired by the instant of that sweep
(`LockTable.Outlives`), and what is taken or refreshed later on expires later still, since a lock is
taken for some time at least.  The next sweep is due within an interval, however late the last one
was (`Sweeper.Attends`), so an entry is gone one interval after its expiry.

If no sweep is too late, more can be said: the sweeps are due at the instants given by the start of
the sweeper and by its interval, so every entry expires behind the last of these instants.  That is
so whenever the clock goes on from one sweep to the next (`TendedDesk.Kept.punctual`).  A sweep that
is too late puts off all that follow.

* `Sweeper.Attends.ticks`, `Sweeper.lt_next_ticks`: what a sweeper does when it gets to work.
* `Roster.attends_workAll`: the same among others.
* `TendedDesk.Kept`: what holds of the sweeper and of the table at all times.
* `TendedDesk.Dismissed`: a sweeper that was stopped never comes back.

`TendedDesk.tidy_run` says what follows for the entries.
-/

namespace CatalogChain

/-- All entries expire behind an instant. -/
def LockTable.Outlives (t : LockTable) (instant : Nat) : Prop :=
  ∀ key l, t.locks.get? key = some l → instant < l.expiresAt

theorem LockTable.outlives_sweep (t : LockTable) (now : Nat) : (t.sweep now).Outlives now := by
  intro key l hl
  rw [get?_sweep] at hl
  exact (held_eq_some_iff.mp hl).2

theorem LockTable.Thinned.outlives {now instant : Nat} {t t' : LockTable} (h : t.Thinned now t')
    (ht : t.Outlives instant) : t'.Outlives instant :=
  fun key l hl => ht key l (h.get?_of_get? key l hl)

/-! ## The next sweep -/

namespace Sweeper

variable {s : Sweeper} {instant : Sweeper → Nat} {start interval now : Nat} {prompt : Prop}
  {locks : LockTable}

/-- A sweep that is not too late does not put off the next one, -/
theorem rearm_of_le (h : now ≤ s.next + tolerance) : (s.rearm now).next = s.next + s.interval := by
  unfold rearm
  rw [if_neg (Nat.not_lt.mpr h)]

/-- and one that is too late does. -/
theorem rearm_of_lt (h : s.next + tolerance < now) : (s.rearm now).next = now + s.interval := by
  unfold rearm
  rw [if_pos h]

theorem next_le_rearm (s : Sweeper) (now : Nat) : s.next + s.interval ≤ (s.rearm now).next := by
  rcases Nat.lt_or_ge (s.next + tolerance) now with hlate | hprompt
  · rw [rearm_of_lt hlate]
    omega
  · exact Nat.le_of_eq (rearm_of_le hprompt).symm

/-- However late a sweep is, the next one is due within an interval. -/
theorem rearm_le (h : s.next ≤ now) : (s.rearm now).next ≤ now + s.interval := by
  rcases Nat.lt_or_ge (s.next + tolerance) now with hlate | hprompt
  · exact Nat.le_of_eq (rearm_of_lt hlate)
  · rw [rearm_of_le hprompt]
    omega

theorem next_le_tick (s : Sweeper) (now : Nat) (locks : LockTable) :
    s.next ≤ (s.tick now locks).1.next := by
  rcases s.tick_cases now locks with ⟨-, htick⟩ | ⟨-, htick⟩
  · have hnext : (s.tick now locks).1.next = s.next := by rw [htick]
    exact Nat.le_of_eq hnext.symm
  · rw [htick]
    have hmove := s.next_le_rearm now
    exact Nat.le_trans (Nat.le_add_right ..) hmove

/-- The next sweep is due behind an instant, or it has moved on with each sweep. -/
theorem lt_or_le_next_ticks (hdue : ∀ s : Sweeper, s.next ≤ now → s.next ≤ instant s) (n : Nat)
    (hpos : 0 < s.interval) (locks : LockTable) :
    now < (s.ticks instant n locks).1.next ∨
      s.next + n * s.interval ≤ (s.ticks instant n locks).1.next := by
  induction n generalizing s locks with
  | zero =>
    right
    rw [Nat.zero_mul]
    exact Nat.le_refl s.next
  | succ n ih =>
    rw [ticks_succ]
    rcases s.tick_cases (instant s) locks with ⟨hnot, htick⟩ | ⟨-, htick⟩
    · -- nothing is due, now or at the end
      have hlater : now < s.next := Nat.lt_of_not_le fun hle => by
        have hnext := hdue s hle
        omega
      rw [htick]
      left
      rcases ih hpos locks with hrest | hrest
      · exact hrest
      · exact Nat.lt_of_lt_of_le hlater (Nat.le_trans (Nat.le_add_right ..) hrest)
    · have hmove := s.next_le_rearm (instant s)
      have hrest := ih (s := s.rearm (instant s)) hpos (locks.sweep (instant s))
      rw [htick, Nat.succ_mul]
      refine hrest.imp_right fun hle => Nat.le_trans ?_ hle
      show s.next + (n * s.interval + s.interval) ≤ (s.rearm (instant s)).next + n * s.interval
      omega

/-- **When all that was due has been done**, nothing is due. -/
theorem lt_next_ticks (hpos : 0 < s.interval)
    (hdue : ∀ s : Sweeper, s.next ≤ now → s.next ≤ instant s) :
    now < (s.ticks instant (s.due now) locks).1.next := by
  rcases lt_or_le_next_ticks hdue (s.due now) hpos locks with h | h
  · exact h
  · refine Nat.lt_of_lt_of_le ?_ h
    unfold due
    split_ifs with hnone
    · omega
    · have hrest := Nat.lt_mul_div_succ (now - s.next) hpos
      rw [Nat.mul_comm] at hrest
      omega

theorem due_of_lt (h : now < s.next) : s.due now = 0 := if_pos (.inr h)

theorem passTo_of_lt (h : now < s.next) (locks : LockTable) : s.passTo now locks = (s, locks) := by
  rw [passTo, due_of_lt h]
  rfl

theorem rouse_of_lt (h : now < s.next) (locks : LockTable) : s.rouse now locks = (s, locks) := by
  rw [rouse, due_of_lt h]
  rfl

/-! ## Attendance -/

/-- **A sweeper that was started at an instant attends to a table.**  What is said under `prompt`
holds if no sweep has been too late. -/
structure Attends (start interval now : Nat) (prompt : Prop) (s : Sweeper) (t : LockTable) :
    Prop where
  interval_eq : s.interval = interval
  /-- All entries expire behind the last sweep, and the next one is due within an interval. -/
  last : ∃ last ≤ now, t.Outlives last ∧ s.next ≤ last + interval
  /-- The next sweep is due at the end of some interval since the start. -/
  inStep : prompt → ∃ rounds, s.next = start + interval * (rounds + 1)

namespace Attends

variable {t t' : LockTable} (h : s.Attends start interval now prompt t)
include h

theorem mono {later : Nat} (hle : now ≤ later) : s.Attends start interval later prompt t := by
  obtain ⟨last, hlast, hrest⟩ := h.last
  exact ⟨h.interval_eq, ⟨last, Nat.le_trans hlast hle, hrest⟩, h.inStep⟩

theorem thinned {instant : Nat} (ht : t.Thinned instant t') :
    s.Attends start interval now prompt t' := by
  obtain ⟨last, hlast, hout, hnext⟩ := h.last
  exact ⟨h.interval_eq, ⟨last, hlast, ht.outlives hout, hnext⟩, h.inStep⟩

/-- **One sweep.** -/
theorem tick {instant : Nat} (hle : instant ≤ now)
    (hprompt : prompt → instant ≤ s.next + tolerance) :
    (s.tick instant t).1.Attends start interval now prompt (s.tick instant t).2 := by
  rcases s.tick_cases instant t with ⟨-, htick⟩ | ⟨⟨-, hdue⟩, htick⟩ <;> rw [htick]
  · exact h
  · have hnext := rearm_le hdue
    rw [h.interval_eq] at hnext
    refine ⟨h.interval_eq, ⟨instant, hle, t.outlives_sweep instant, hnext⟩, fun hp => ?_⟩
    obtain ⟨rounds, hrounds⟩ := h.inStep hp
    refine ⟨rounds + 1, ?_⟩
    rw [rearm_of_le (hprompt hp), h.interval_eq, hrounds, Nat.add_assoc, ← Nat.mul_succ]

/-- **Any number of sweeps.** -/
theorem ticks {instant : Sweeper → Nat} (hle : ∀ s, instant s ≤ now)
    (hprompt : prompt → ∀ s', s.next ≤ s'.next → instant s' ≤ s'.next + tolerance) (n : Nat) :
    (s.ticks instant n t).1.Attends start interval now prompt (s.ticks instant n t).2 := by
  have hall : s.next ≤ (s.ticks instant n t).1.next ∧
      (s.ticks instant n t).1.Attends start interval now prompt (s.ticks instant n t).2 :=
    ticks_induction
      (motive := fun s' t' => s.next ≤ s'.next ∧ s'.Attends start interval now prompt t')
      (fun s' t' h' => ⟨Nat.le_trans h'.1 (s'.next_le_tick (instant s') t'),
        h'.2.tick (hle s') fun hp => hprompt hp s' h'.1⟩) ⟨Nat.le_refl _, h⟩ n
  exact hall.2

theorem passTo (hpos : 0 < interval) :
    (s.passTo now t).1.Attends start interval now prompt (s.passTo now t).2 ∧
      now < (s.passTo now t).1.next := by
  constructor
  · refine h.ticks (fun _ => Nat.min_le_right ..) (fun _ s' _ => ?_) _
    exact Nat.le_trans (Nat.min_le_left ..) (Nat.le_add_right ..)
  · refine lt_next_ticks (by rw [h.interval_eq]; exact hpos) fun s hs => ?_
    exact Nat.le_min.mpr ⟨Nat.le_refl _, hs⟩

theorem rouse (hpos : 0 < interval) (hprompt : prompt → now ≤ s.next + tolerance) :
    (s.rouse now t).1.Attends start interval now prompt (s.rouse now t).2 ∧
      now < (s.rouse now t).1.next := by
  constructor
  · refine h.ticks (fun _ => Nat.le_refl now) (fun hp s' hs' => ?_) _
    have := hprompt hp
    omega
  · exact lt_next_ticks (by rw [h.interval_eq]; exact hpos) fun _ hs => hs

/-- **Every entry is to expire within the interval that goes on.** -/
theorem lt_expiresAt (hdone : now < s.next) {key : String} {l : Lock}
    (hl : t.locks.get? key = some l) : now < l.expiresAt + interval := by
  obtain ⟨last, -, hout, hnext⟩ := h.last
  have := hout key l hl
  omega

/-- **Every entry expires behind the last end of an interval** if no sweep has been too late. -/
theorem outlives (hpos : 0 < interval) (hdone : now < s.next) (hp : prompt) :
    t.Outlives (start + interval * ((now - start) / interval)) := by
  intro key l hl
  obtain ⟨last, -, hout, hnext⟩ := h.last
  obtain ⟨rounds, hrounds⟩ := h.inStep hp
  have hlast := hout key l hl
  have hcount : (now - start) / interval < rounds + 1 := by
    have hsome : 0 < interval * (rounds + 1) := Nat.mul_pos hpos (Nat.succ_pos rounds)
    rw [Nat.div_lt_iff_lt_mul hpos, Nat.mul_comm]
    omega
  have hmul : interval * ((now - start) / interval) ≤ interval * rounds :=
    Nat.mul_le_mul_left _ (Nat.le_of_lt_succ hcount)
  rw [hrounds, Nat.mul_succ] at hnext
  omega

end Attends

end Sweeper

/-! ## Sweepers among others -/

namespace Roster

variable {ws : List (Nat × Sweeper)} {work : Sweeper → LockTable → Sweeper × LockTable}
  {locks : LockTable} {number start interval now : Nat} {prompt : Prop} {s : Sweeper}

/-- **The others do no more than drop what is expired.** -/
theorem attends_workAll (hthin : ∀ (s : Sweeper) (t : LockTable), t.Thinned now (work s t).2)
    (hwork : ∀ t, s.Attends start interval now prompt t →
      (work s t).1.Attends start interval now prompt (work s t).2 ∧ now < (work s t).1.next)
    (hs : ws.lookup number = some s) (h : s.Attends start interval now prompt locks) :
    ∃ s', (workAll work ws locks).1.lookup number = some s' ∧
      s'.Attends start interval now prompt (workAll work ws locks).2 ∧ now < s'.next := by
  induction ws generalizing locks with
  | nil => cases hs
  | cons w ws ih =>
    obtain ⟨k, s'⟩ := w
    rw [List.lookup_cons] at hs
    by_cases hk : number = k
    · subst hk
      rw [beq_self_eq_true] at hs
      obtain rfl : s' = s := Option.some.inj hs
      obtain ⟨hself, hlater⟩ := hwork locks h
      refine ⟨(work s' locks).1, ?_, hself.thinned (thinned_workAll hthin ws _), hlater⟩
      rw [workAll, List.lookup_cons, beq_self_eq_true]
    · rw [beq_false_of_ne hk] at hs
      obtain ⟨s'', hlook, hrest⟩ := ih hs (h.thinned (hthin s' locks))
      refine ⟨s'', ?_, hrest⟩
      rw [workAll, List.lookup_cons, beq_false_of_ne hk]
      exact hlook

theorem isAtWork_of_lookup {r : Roster} (h : r.workers.lookup number = some s) :
    r.isAtWork number = true := by
  obtain ⟨w, hw, hnumber⟩ := List.lookup_isSome_iff.mp (Option.isSome_of_eq_some h)
  exact List.any_eq_true.mpr ⟨w, hw, decide_eq_true (beq_iff_eq.mp hnumber).symm⟩

/-- Every worker keeps its number. -/
theorem exists_of_mem_workAll {w : Nat × Sweeper} (hw : w ∈ (workAll work ws locks).1) :
    ∃ w' ∈ ws, w'.1 = w.1 := by
  induction ws generalizing locks with
  | nil => cases hw
  | cons v ws ih =>
    rcases List.mem_cons.mp hw with rfl | hw
    · exact ⟨v, List.mem_cons_self, rfl⟩
    · obtain ⟨w', hw', heq⟩ := ih hw
      exact ⟨w', List.mem_cons_of_mem _ hw', heq⟩

/-- While nobody has anything to do, all stays as it is. -/
theorem workAll_of_idle (h : ∀ w ∈ ws, ∀ t, work w.2 t = (w.2, t)) (locks : LockTable) :
    workAll work ws locks = (ws, locks) := by
  induction ws generalizing locks with
  | nil => rfl
  | cons w ws ih =>
    rw [workAll, h w List.mem_cons_self locks]
    simp only
    rw [ih fun w hw => h w (List.mem_cons_of_mem _ hw)]

theorem passTo_of_lt {r : Roster} (h : ∀ w ∈ r.workers, now < w.2.next) (locks : LockTable) :
    r.passTo now locks = (r, locks) := by
  rw [passTo, workAll_of_idle fun w hw => Sweeper.passTo_of_lt (h w hw)]

theorem rouse_of_lt {r : Roster} (h : ∀ w ∈ r.workers, now < w.2.next) (locks : LockTable) :
    r.rouse now locks = (r, locks) := by
  rw [rouse, workAll_of_idle fun w hw => Sweeper.rouse_of_lt (h w hw)]

/-- The others go on when a worker is stopped. -/
theorem lookup_stop (r : Roster) {other : Nat} (h : number ≠ other) :
    (r.stop other).workers.lookup number = r.workers.lookup number := by
  show (r.workers.filter fun w => w.1 ≠ other).lookup number = r.workers.lookup number
  induction r.workers with
  | nil => rfl
  | cons w ws ih =>
    rw [List.filter_cons, List.lookup_cons]
    split_ifs with hw
    · rw [List.lookup_cons, ih]
    · have hother : w.1 = other := by simpa using hw
      rw [hother, beq_false_of_ne h, ih]

end Roster

/-! ## What is asked meanwhile -/

namespace LockOp

/-- The time for which a lock is to be held. -/
def ttl? : LockOp → Option Nat
  | acquire _ _ ttl | refresh _ ttl | refreshOwned _ _ ttl => some ttl
  | _ => none

end LockOp

namespace LockDesk

theorem expiry_of_refresh {t : LockTable} {now ttl : Nat} {k key : String} {l : Lock}
    (h : (t.refresh now k ttl).2.locks.get? key = some l) :
    t.locks.get? key = some l ∨ l.expiresAt = now + ttl := by
  rw [get?_refresh] at h
  split_ifs at h
  · obtain ⟨b, -, rfl⟩ := Option.map_eq_some_iff.mp h
    exact .inr rfl
  · exact .inl h

/-- **When an entry expires**: when it did before, or after the time that is asked for. -/
theorem expiry_origin {d : LockDesk} {op : LockOp} {key : String} {l : Lock}
    (h : (d.after op).lock? key = some l) :
    d.lock? key = some l ∨ ∃ ttl, op.ttl? = some ttl ∧ l.expiresAt = d.now + ttl := by
  cases op with
  | acquire cancelled k ttl =>
    rcases d.after_acquire cancelled k ttl with hstay | ⟨-, hafter⟩
    · rw [hstay] at h
      exact .inl h
    · rw [hafter] at h
      have hput := (Table.get?_put ..).symm.trans h
      split_ifs at hput
      · cases hput
        exact .inr ⟨ttl, rfl, rfl⟩
      · exact .inl hput
  | release k => exact .inl (get?_of_erase h)
  | releaseOwned k token =>
    simp only [after, step, LockTable.releaseOwned] at h
    split_ifs at h
    · exact .inl (get?_of_erase h)
    · exact .inl h
  | refresh k ttl => exact (expiry_of_refresh h).imp_right fun he => ⟨ttl, rfl, he⟩
  | refreshOwned k token ttl =>
    simp only [after, step, LockTable.refreshOwned] at h
    split_ifs at h
    · exact (expiry_of_refresh h).imp_right fun he => ⟨ttl, rfl, he⟩
    · exact .inl h
  | sweep =>
    rw [lock?_sweep] at h
    exact .inl (Option.filter_eq_some_iff.mp h).1
  | look | pass => exact .inl h

end LockDesk

/-! ## Runs -/

namespace TendedDesk

/-- Every lock is to be held for some time. -/
def Lasting (ops : List TendedOp) : Prop :=
  ∀ op ∈ ops, ∀ ttl, op.user?.bind LockOp.ttl? = some ttl → 0 < ttl

/-- The sweeper at work under a number. -/
def sweeper? (d : TendedDesk) (number : Nat) : Option Sweeper := d.roster.workers.lookup number

/-- **A sweeper is prompt**: no sweep of it is overdue by so much that it would be too late. -/
def Prompt (d : TendedDesk) (number : Nat) : Prop :=
  ∀ s, d.sweeper? number = some s → d.now ≤ s.next + Sweeper.tolerance

/-- **A sweeper is punctual** if it is prompt throughout a run. -/
def Punctual (d : TendedDesk) (number : Nat) : List TendedOp → Prop
  | [] => d.Prompt number
  | op :: ops => d.Prompt number ∧ (d.step op).Punctual number ops

/-- **Every entry outlives the schedule** of a sweeper that was started at `start`: once all that is
due up to an instant has been done, every entry expires behind the last end of an interval. -/
def OnSchedule (d : TendedDesk) (start interval : Nat) : Prop :=
  ∀ now, d.now ≤ now → ∀ key l, (d.passTo now).table.locks.get? key = some l →
    start + interval * ((now - start) / interval) < l.expiresAt

/-- **What a sweeper sees to** from its start on: it stands at the end of a run that goes on from
there.  Once all that is due up to an instant has been done, however late, every entry is gone one
interval after its expiry; nothing is dropped before it is expired; and when the sweeper has been
stopped, all that is dropped is dropped by others.  If no sweep was too late, every entry outlives
the schedule, and no sweep is late at all while the clock goes on from one sweep to the next. -/
structure Tidy (d : TendedDesk) (interval : Nat) (ops : List TendedOp) : Prop where
  gone : ∀ now, ((d.start false interval).run ops).now ≤ now → ∀ key l,
    (((d.start false interval).run ops).passTo now).table.locks.get? key = some l →
      now < l.expiresAt + interval
  outlives : (d.start false interval).Punctual (d.roster.started + 1) ops →
    ((d.start false interval).run ops).OnSchedule d.now interval
  punctual : (∀ time, .leap time ∉ ops) →
    (d.start false interval).Punctual (d.roster.started + 1) ops
  kept : ∀ now, ((d.start false interval).run ops).now ≤ now → ∀ key l,
    ((d.start false interval).run ops).table.locks.get? key = some l → now < l.expiresAt →
      (((d.start false interval).run ops).passTo now).table.locks.get? key = some l
  keptAtFirst : ∀ key l, d.table.locks.get? key = some l → d.now < l.expiresAt →
    (d.start false interval).table.locks.get? key = some l
  atWork : ((d.start false interval).run ops).roster.isAtWork (d.roster.started + 1) = true
  stopped : ∀ later, let e := (((d.start false interval).run ops).step
      (.stop (d.roster.started + 1))).run later
    e.roster.isAtWork (d.roster.started + 1) = false ∧
      ∀ now, e.now ≤ now → ∀ key l, e.table.locks.get? key = some l →
        (e.passTo now).table.locks.get? key = some l ∨
          l.expiresAt ≤ now ∧ ∃ w ∈ e.roster.workers, w.1 ≠ d.roster.started + 1 ∧ w.2.next ≤ now

/-- **A sweeper keeps a desk tidy**: it is at work, and it attends to the table.  What is said under
`timely` holds if the clock has gone on from one sweep to the next only. -/
structure Kept (d : TendedDesk) (number start interval : Nat) (prompt timely : Prop) : Prop where
  started : number ≤ d.roster.started
  attended : ∃ s, d.sweeper? number = some s ∧
    s.Attends start interval d.now prompt d.table ∧ (timely → d.now ≤ s.next)

variable {d : TendedDesk} {number start interval : Nat} {prompt timely : Prop}

theorem kept_start (d : TendedDesk) (hpos : 0 < interval) (prompt timely : Prop) :
    (d.start false interval).Kept (d.roster.started + 1) d.now interval prompt timely := by
  have hne : interval ≠ 0 := Nat.ne_of_gt hpos
  have hstart : d.start false interval =
      ⟨⟨d.now, d.table.sweep d.now⟩, ⟨d.roster.started + 1,
        (d.roster.started + 1, ⟨interval, d.now + interval⟩) :: d.roster.workers⟩⟩ := by
    simp [TendedDesk.start, Roster.start, Sweeper.start, Sweeper.isRunning, hne, now]
  rw [hstart]
  refine ⟨Nat.le_refl _, ⟨interval, d.now + interval⟩, ?_, ?_, fun _ => Nat.le_add_right ..⟩
  · rw [sweeper?, List.lookup_cons, beq_self_eq_true]
  · refine ⟨rfl, ⟨d.now, Nat.le_refl _, d.table.outlives_sweep d.now, Nat.le_refl _⟩, fun _ => ?_⟩
    exact ⟨0, by rw [Nat.zero_add, Nat.mul_one]⟩

section Kept
variable (h : d.Kept number start interval prompt timely) (hpos : 0 < interval)
  (hprompt : prompt → d.Prompt number)
include h hpos hprompt

/-- **When the sweepers get to work**, nothing is due behind it. -/
theorem Kept.rouse : ∃ s, d.rouse.sweeper? number = some s ∧
    s.Attends start interval d.now prompt d.rouse.table ∧ d.now < s.next := by
  obtain ⟨s, hs, hattends, -⟩ := h.attended
  exact Roster.attends_workAll (fun s t => s.thinned_rouse d.now t)
    (fun t ht => ht.rouse hpos fun hp => hprompt hp s hs) hs hattends

/-- **While time passes**, the sweeper makes its sweeps. -/
theorem Kept.passTo {now : Nat} (hnow : d.now ≤ now) :
    ∃ s, (d.passTo now).sweeper? number = some s ∧
      s.Attends start interval now prompt (d.passTo now).table ∧ now < s.next := by
  obtain ⟨s, hs, hattends, -⟩ := h.rouse hpos hprompt
  exact Roster.attends_workAll (fun s t => s.thinned_passTo now t) (fun t ht => ht.passTo hpos) hs
    (hattends.mono hnow)

theorem Kept.wait (time : Nat) : (d.wait time).Kept number start interval prompt timely := by
  cases time with
  | zero => exact h
  | succ time =>
    obtain ⟨s, hs, hattends, hnext⟩ := h.passTo hpos hprompt (Nat.le_add_right d.now time)
    exact ⟨h.started, s, hs, hattends.mono (Nat.le_succ _), fun _ => hnext⟩

/-- **One step**, as long as the sweeper is not stopped. -/
theorem Kept.step {op : TendedOp} (hstop : op ≠ .stop number)
    (httl : ∀ ttl, op.user?.bind LockOp.ttl? = some ttl → 0 < ttl)
    (htimely : timely → ∀ time, op ≠ .leap time) :
    (d.step op).Kept number start interval prompt timely := by
  cases op with
  | ask op =>
    by_cases hpass : ∃ time, op = .pass time
    · obtain ⟨time, rfl⟩ := hpass
      exact h.wait hpos hprompt time
    · have hop : ∀ time, op ≠ .pass time := fun time ht => hpass ⟨time, ht⟩
      have hnow : (d.desk.after op).now = d.now := d.desk.now_after hop
      obtain ⟨s, hs, hattends, hnext⟩ := h.attended
      obtain ⟨last, hlast, hout, hdue⟩ := hattends.last
      rw [d.step_ask hop]
      refine ⟨h.started, s, hs, ⟨hattends.interval_eq, ⟨last, ?_, fun key l hl => ?_, hdue⟩,
        hattends.inStep⟩, fun ht => Nat.le_trans (Nat.le_of_eq hnow) (hnext ht)⟩
      · exact Nat.le_trans hlast (Nat.le_of_eq hnow.symm)
      · rcases LockDesk.expiry_origin hl with hold | ⟨ttl, hasked, hexpiry⟩
        · exact hout key l hold
        · -- what is asked for lasts for some time behind the last sweep
          have hlong := httl ttl (by cases op <;> exact hasked)
          have hlast : last ≤ d.desk.now := hlast
          omega
  | settle =>
    obtain ⟨s, hs, hattends, hnext⟩ := h.rouse hpos hprompt
    exact ⟨h.started, s, hs, hattends, fun _ => Nat.le_of_lt hnext⟩
  | leap time =>
    obtain ⟨s, hs, hattends, -⟩ := h.attended
    refine ⟨h.started, s, hs, hattends.mono (Nat.le_add_right ..), fun ht => ?_⟩
    exact absurd rfl (htimely ht time)
  | start cancelled interval' =>
    obtain ⟨s, hs, hattends, hnext⟩ := h.attended
    have hthin := d.roster.thinned_start cancelled interval' d.now d.table
    refine ⟨?_, s, ?_, hattends.thinned hthin, hnext⟩
    · refine Nat.le_trans h.started (Nat.le_trans (Nat.le_succ _) (Nat.le_of_eq ?_))
      cases cancelled <;> rfl
    · cases cancelled with
      | true => exact hs
      | false =>
        -- the number of the new sweeper is another one
        have hne : number ≠ d.roster.started + 1 := Nat.ne_of_lt (Nat.lt_succ_of_le h.started)
        show List.lookup number (if _ then _ else _) = _
        split_ifs
        · rw [List.lookup_cons, beq_false_of_ne hne]
          exact hs
        · exact hs
  | stop other =>
    obtain ⟨s, hs, hattends, hnext⟩ := h.attended
    have hne : number ≠ other := fun heq => hstop (congrArg _ heq.symm)
    exact ⟨h.started, s, (d.roster.lookup_stop hne).trans hs, hattends, hnext⟩

end Kept

/-- **A whole run.** -/
theorem Kept.run {ops : List TendedOp} (h : d.Kept number start interval prompt timely)
    (hpos : 0 < interval) (hprompt : prompt → d.Punctual number ops)
    (hstop : .stop number ∉ ops) (httl : Lasting ops)
    (htimely : timely → ∀ time, .leap time ∉ ops) :
    (d.run ops).Kept number start interval prompt timely ∧
      (prompt → (d.run ops).Prompt number) := by
  induction ops generalizing d with
  | nil => exact ⟨h, hprompt⟩
  | cons op ops ih =>
    have hstep : (d.step op).Kept number start interval prompt timely := by
      refine h.step hpos (fun hp => (hprompt hp).1) ?_ (httl op List.mem_cons_self) ?_
      · exact fun hop => hstop (hop ▸ List.mem_cons_self)
      · exact fun ht time hop => htimely ht time (hop ▸ List.mem_cons_self)
    refine ih hstep (fun hp => (hprompt hp).2) ?_ ?_ ?_
    · exact fun hmem => hstop (List.mem_cons_of_mem _ hmem)
    · exact fun op hop => httl op (List.mem_cons_of_mem _ hop)
    · exact fun ht time hmem => htimely ht time (List.mem_cons_of_mem _ hmem)

theorem punctual_of_prefix {ops : List TendedOp}
    (h : ∀ first, first <+: ops → (d.run first).Prompt number) : d.Punctual number ops := by
  induction ops generalizing d with
  | nil => exact h [] List.nil_prefix
  | cons op ops ih =>
    refine ⟨h [] List.nil_prefix, ih fun first hfirst => ?_⟩
    exact h (op :: first) (List.cons_prefix_cons.mpr ⟨rfl, hfirst⟩)

theorem Kept.prompt_of_timely (h : d.Kept number start interval prompt True) : d.Prompt number := by
  intro s hs
  obtain ⟨s', hs', -, hnext⟩ := h.attended
  obtain rfl : s' = s := Option.some.inj (hs'.symm.trans hs)
  exact Nat.le_trans (hnext trivial) (Nat.le_add_right ..)

/-- **No sweep is late** while the clock goes on from one sweep to the next. -/
theorem Kept.punctual {ops : List TendedOp} (h : d.Kept number start interval False True)
    (hpos : 0 < interval) (hstop : .stop number ∉ ops) (httl : Lasting ops)
    (hleap : ∀ time, .leap time ∉ ops) : d.Punctual number ops := by
  refine punctual_of_prefix fun first hfirst => ?_
  have hmem : ∀ op ∈ first, op ∈ ops := fun op hop => hfirst.subset hop
  have hkept := h.run hpos False.elim (fun hop => hstop (hmem _ hop))
    (fun op hop => httl op (hmem op hop)) fun _ time hop => hleap time (hmem _ hop)
  exact hkept.1.prompt_of_timely

/-! ## A sweeper that was stopped -/

/-- **A sweeper is dismissed**: it is not at work, and no sweeper will be given its number. -/
def Dismissed (d : TendedDesk) (number : Nat) : Prop :=
  number ≤ d.roster.started ∧ ∀ w ∈ d.roster.workers, w.1 ≠ number

theorem Dismissed.rouse (h : d.Dismissed number) : d.rouse.Dismissed number := by
  refine ⟨h.1, fun w hw hnumber => ?_⟩
  obtain ⟨w', hw', heq⟩ := Roster.exists_of_mem_workAll hw
  exact h.2 w' hw' (heq.trans hnumber)

theorem Dismissed.passTo (h : d.Dismissed number) (now : Nat) :
    (d.passTo now).Dismissed number := by
  refine ⟨h.1, fun w hw hnumber => ?_⟩
  obtain ⟨w', hw', heq⟩ := Roster.exists_of_mem_workAll hw
  exact h.rouse.2 w' hw' (heq.trans hnumber)

theorem Dismissed.step (h : d.Dismissed number) (op : TendedOp) : (d.step op).Dismissed number := by
  cases op with
  | ask op =>
    cases op with
    | pass time =>
      cases time with
      | zero => exact h
      | succ time => exact h.passTo (d.now + time)
    | acquire | release | releaseOwned | refresh | refreshOwned | look | sweep => exact h
  | settle => exact h.rouse
  | leap time => exact h
  | start cancelled interval =>
    cases cancelled with
    | true => exact ⟨Nat.le_succ_of_le h.1, h.2⟩
    | false =>
      refine ⟨Nat.le_succ_of_le h.1, fun w hw => ?_⟩
      change _ ∈ if _ then _ else _ at hw
      split_ifs at hw
      · rcases List.mem_cons.mp hw with rfl | hw
        · exact Nat.ne_of_gt (Nat.lt_succ_of_le h.1)
        · exact h.2 w hw
      · exact h.2 w hw
  | stop other => exact ⟨h.1, fun w hw => h.2 w (List.mem_filter.mp hw).1⟩

theorem Dismissed.run (h : d.Dismissed number) (ops : List TendedOp) :
    (d.run ops).Dismissed number := by
  induction ops generalizing d with
  | nil => exact h
  | cons op ops ih => exact ih (h.step op)

theorem dismissed_stop (h : number ≤ d.roster.started) : (d.step (.stop number)).Dismissed number :=
  ⟨h, fun _ hw => of_decide_eq_true (List.mem_filter.mp hw).2⟩

/-! ## What follows for the entries -/

/-- While nobody has a sweep to make, the table stays as it is. -/
theorem table_passTo_of_lt {now : Nat} (hnow : d.now ≤ now)
    (h : ∀ w ∈ d.roster.workers, now < w.2.next) : (d.passTo now).table = d.table := by
  have hrouse : d.rouse = d := by
    rw [TendedDesk.rouse, Roster.rouse_of_lt fun w hw => Nat.lt_of_le_of_lt hnow (h w hw)]
    rfl
  rw [TendedDesk.passTo, hrouse, Roster.passTo_of_lt h]
  rfl

/-- **Who has dropped an entry** is a worker with a sweep to make, and the entry was expired. -/
theorem get?_passTo {now : Nat} (hnow : d.now ≤ now) {key : String} {l : Lock}
    (hl : d.table.locks.get? key = some l) :
    (d.passTo now).table.locks.get? key = some l ∨
      l.expiresAt ≤ now ∧ ∃ w ∈ d.roster.workers, w.2.next ≤ now := by
  rcases Nat.lt_or_ge now l.expiresAt with hlive | hexpired
  · exact .inl ((thinned_passTo hnow).get?_of_lt hl hlive)
  · by_cases hdue : ∃ w ∈ d.roster.workers, w.2.next ≤ now
    · exact .inr ⟨hexpired, hdue⟩
    · have hlater : ∀ w ∈ d.roster.workers, now < w.2.next := fun w hw =>
        Nat.lt_of_not_le fun hle => hdue ⟨w, hw, hle⟩
      rw [table_passTo_of_lt hnow hlater]
      exact .inl hl

/-- **A sweeper sees to its desk** as long as it is not stopped. -/
theorem tidy_run (d : TendedDesk) {interval : Nat} {ops : List TendedOp} (hpos : 0 < interval)
    (hstop : .stop (d.roster.started + 1) ∉ ops) (httl : Lasting ops) : d.Tidy interval ops := by
  -- what depends on no sweep being late is kept as a condition
  obtain ⟨hkept, hprompt⟩ := (d.kept_start hpos
    ((d.start false interval).Punctual (d.roster.started + 1) ops) False).run hpos id hstop httl
    False.elim
  have hgone := fun later => (dismissed_stop hkept.started).run later
  refine
    { gone := fun now hnow key l hl => ?_
      outlives := fun hpunctual now hnow key l hl => ?_
      punctual := fun hleap => ?_
      kept := fun now hnow key l hl hlive => (thinned_passTo hnow).get?_of_lt hl hlive
      keptAtFirst := fun key l hl hlive =>
        (d.roster.thinned_start false interval d.now d.table).get?_of_lt hl hlive
      atWork := ?_
      stopped := fun later => ⟨?_, fun now hnow key l hl => ?_⟩ }
  · obtain ⟨s, -, hattends, hnext⟩ := hkept.passTo hpos hprompt hnow
    exact hattends.lt_expiresAt hnext hl
  · obtain ⟨s, -, hattends, hnext⟩ := hkept.passTo hpos hprompt hnow
    exact hattends.outlives hpos hnext hpunctual key l hl
  · exact (d.kept_start hpos False True).punctual hpos hstop httl hleap
  · obtain ⟨s, hs, -⟩ := hkept.attended
    exact Roster.isAtWork_of_lookup hs
  · exact List.any_eq_false.mpr fun w hw => by simpa using (hgone later).2 w hw
  · rcases get?_passTo hnow hl with hstay | ⟨hexpired, w, hw, hdue⟩
    · exact .inl hstay
    · exact .inr ⟨hexpired, w, hw, (hgone later).2 w hw, hdue⟩

/-- A lock that is abandoned, and one that is taken just behind a sweep. -/
def sampleStay : List TendedOp :=
  [.ask (.acquire false "p" 5), .ask (.pass 10), .settle, .ask (.acquire false "q" 1),
    .ask (.pass 30)]

/-- Both are gone when the sweeper has made its sweeps. -/
theorem tidy_sample : 0 < 10 ∧ .stop 1 ∉ sampleStay ∧ Lasting sampleStay ∧
    Tidy ⟨.opened 3, .empty⟩ 10 sampleStay := by
  have hstop : .stop 1 ∉ sampleStay := by simp [sampleStay]
  have httl : Lasting sampleStay := by
    simp [Lasting, sampleStay, TendedOp.user?, LockOp.ttl?]
  exact ⟨by decide, hstop, httl, tidy_run ⟨.opened 3, .empty⟩ (by decide) hstop httl⟩

/-- A sweeper that gets to work a hundred and fifty milliseconds late. -/
def sampleLate : List TendedOp :=
  [.ask (.acquire false "p" 280), .leap 250, .settle, .leap 50]

/-- **A late sweep puts off the next one**: the sweep due at 300 is made at 350 at the earliest, so
at 300 an entry is left that expired at 280. -/
theorem late_sample : 0 < 100 ∧ .stop 1 ∉ sampleLate ∧ Lasting sampleLate ∧
    ¬ (((⟨.opened 0, .empty⟩ : TendedDesk).start false 100).run sampleLate).OnSchedule 0 100 := by
  refine ⟨by decide, by simp [sampleLate], ?_, fun h => ?_⟩
  · simp [Lasting, sampleLate, TendedOp.user?, LockOp.ttl?]
  · have hstay : ((((⟨.opened 0, .empty⟩ : TendedDesk).start false 100).run sampleLate).passTo
        300).table.locks.get? "p" = some ⟨1, 280⟩ := by decide
    have hlast := h 300 (by decide) "p" ⟨1, 280⟩ hstay
    exact absurd hlast (by decide)

end TendedDesk

end CatalogChain
