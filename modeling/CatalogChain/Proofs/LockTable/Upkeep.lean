import CatalogChain.Proofs.LockTable.Tended

/-!
# Upkeep goes unnoticed

Two runs in which users of locks ask the same at the same instants (`TendedOp.plan`) may differ in
all that is done for the upkeep of the table: sweeps that are asked for, sweepers at work, on time
or late, started and stopped.  Entries that are expired can then be found in one table and not in
the other.  What holds at all times is that the same locks are held in both (`TendedDesk.Abreast`):

* what no user asks keeps it, in either run alone (`Abreast.left`, `Abreast.right`);
* what a user asks keeps it when it is asked in both runs, and is answered alike in both
  (`LockDesk.answer_congr`, `LockDesk.alike_after`).  Two things look at entries that are expired.
  The release for an owner says whether there was one, so its answer is left out, and a refresh
  brings it back, so it must be asked of a locked key only (`TendedDesk.Careful`).

`TendedDesk.indistinguishable_run` puts this together, with what a single sweep does.
-/

namespace CatalogChain

namespace LockTable

/-! ## Tables in which the same locks are held -/

/-- **A sweep at an instant**, with the number that it gives: all that is dropped is expired, all
that is expired is dropped, and the number is that of what is dropped. -/
structure Swept (t : LockTable) (now n : Nat) (t' : LockTable) : Prop where
  get?_iff : ∀ key l, t'.locks.get? key = some l ↔ t.locks.get? key = some l ∧ now < l.expiresAt
  number : n + t'.size = t.size
  drawn : t'.drawn = t.drawn

theorem swept_sweep (t : LockTable) (now : Nat) : t.Swept now (t.expired now) (t.sweep now) where
  get?_iff key l := by rw [get?_sweep, held_eq_some_iff]
  number := by
    -- every entry is either expired or kept
    show (t.locks.entries.map Prod.snd).countP (fun l => l.isExpired now) +
      (t.locks.entries.filter fun e => !e.2.isExpired now).length = t.locks.entries.length
    rw [List.countP_map, ← List.countP_eq_length_filter]
    simpa [Function.comp_def] using
      (List.length_eq_countP_add_countP (fun e : String × Lock => e.2.isExpired now)).symm
  drawn := rfl

theorem held_erase (locks : Table Lock) (drawn now : Nat) (key k : String) :
    held ⟨locks.erase key, drawn⟩ now k = if key = k then none else held ⟨locks, drawn⟩ now k := by
  unfold held
  rw [Table.get?_erase]
  split_ifs <;> rfl

theorem held_put (locks : Table Lock) (drawn now : Nat) (key : String) (l : Lock) (k : String) :
    held ⟨locks.put key l, drawn⟩ now k =
      if key = k then (some l).filter (fun l => !l.isExpired now)
      else held ⟨locks, drawn⟩ now k := by
  unfold held
  rw [Table.get?_put]
  split_ifs <;> rfl

/-- Giving back a lock that is expired, or was lost, makes no difference to what is held. -/
theorem held_releaseOwned (t : LockTable) (now : Nat) (key : String) (token : Token) (k : String) :
    (t.releaseOwned key token).2.held now k =
      if key = k then (t.held now k).filter fun l => l.owner ≠ token else t.held now k := by
  cases hown : t.isOwnedBy key token with
  | true =>
    obtain ⟨l, hl, rfl⟩ := isOwnedBy_eq_true_iff.mp hown
    rw [releaseOwned, if_pos hown]
    refine (held_erase ..).trans ?_
    split_ifs with hk
    · rw [← hk, held, hl]
      cases hexpired : l.isExpired now <;> simp [Option.filter_some, hexpired]
    · rfl
  | false =>
    rw [releaseOwned, if_neg (by rw [hown]; decide)]
    split_ifs with hk
    · cases hheld : t.held now k with
      | none => rfl
      | some l =>
        have hne : l.owner ≠ token := fun ho => by
          have hl := (held_eq_some_iff.mp hheld).1
          rw [isOwnedBy_eq_true_iff.mpr ⟨l, hk ▸ hl, ho⟩] at hown
          cases hown
        rw [Option.filter_some, if_pos (decide_eq_true hne)]
    · rfl

namespace Alike

variable {now : Nat} {t t' : LockTable} (h : Alike now t t')
include h

theorem isLocked (key : String) : t'.isLocked now key = t.isLocked now key := by
  rw [isLocked_eq_isSome_held, isLocked_eq_isSome_held, h.held]

theorem put (key : String) (l : Lock) (drawn : Nat) :
    Alike now ⟨t.locks.put key l, drawn⟩ ⟨t'.locks.put key l, drawn⟩ := by
  refine ⟨rfl, fun k => ?_⟩
  rw [held_put, held_put]
  split_ifs
  · rfl
  · exact h.held k

theorem release (key : String) : Alike now (t.release key) (t'.release key) := by
  refine ⟨h.drawn, fun k => (held_erase ..).trans ((held_erase ..).trans ?_).symm⟩
  split_ifs
  · rfl
  · exact (h.held k).symm

theorem releaseOwned (key : String) (token : Token) :
    Alike now (t.releaseOwned key token).2 (t'.releaseOwned key token).2 := by
  have hdrawn : ∀ t : LockTable, (t.releaseOwned key token).2.drawn = t.drawn := fun t => by
    unfold LockTable.releaseOwned
    split_ifs <;> rfl
  refine ⟨(hdrawn t').trans (h.drawn.trans (hdrawn t).symm), fun k => ?_⟩
  rw [held_releaseOwned, held_releaseOwned, h.held]

/-- The entry of a key that is locked is the same in both. -/
theorem get?_eq {key : String} (hlocked : t.isLocked now key = true) :
    t'.locks.get? key = t.locks.get? key := by
  obtain ⟨l, hl, hlive⟩ := isLocked_eq_true_iff.mp hlocked
  have hheld := (h.held key).trans (held_eq_some_iff.mpr ⟨hl, hlive⟩)
  rw [hl, (held_eq_some_iff.mp hheld).1]

/-- **A lock that is held is refreshed in both.** -/
theorem refresh {key : String} (hlocked : t.isLocked now key = true) (ttl : Nat) :
    (t'.refresh now key ttl).1 = (t.refresh now key ttl).1 ∧
      Alike now (t.refresh now key ttl).2 (t'.refresh now key ttl).2 := by
  unfold LockTable.refresh
  rw [h.get?_eq hlocked]
  cases t.locks.get? key with
  | none => exact ⟨rfl, h⟩
  | some l =>
    refine ⟨rfl, ?_⟩
    have hput := h.put key { l with expiresAt := now + ttl } t.drawn
    rw [← h.drawn] at hput
    exact ⟨h.drawn, hput.held⟩

theorem refreshOwned {key : String} (hlocked : t.isLocked now key = true) (token : Token)
    (ttl : Nat) : (t'.refreshOwned now key token ttl).1 = (t.refreshOwned now key token ttl).1 ∧
      Alike now (t.refreshOwned now key token ttl).2 (t'.refreshOwned now key token ttl).2 := by
  have hown : t'.isOwnedBy key token = t.isOwnedBy key token := by
    rw [isOwnedBy, isOwnedBy, h.get?_eq hlocked]
  unfold LockTable.refreshOwned
  rw [hown]
  split_ifs
  · exact h.refresh hlocked ttl
  · exact ⟨rfl, h⟩

end Alike

end LockTable

/-! ## What users ask -/

namespace LockOp

/-- The key whose entry is to be refreshed. -/
def refreshed? : LockOp → Option String
  | refresh key _ | refreshOwned key _ _ => some key
  | _ => none

/-- Whether the answer tells of the locks that are held.  To give a lock back for its owner tells
of an entry that is expired, too. -/
def Tells : LockOp → Bool
  | releaseOwned .. => false
  | _ => true

end LockOp

namespace LockDesk

variable {d e : LockDesk} {op : LockOp} (hnow : e.now = d.now)
  (h : LockTable.Alike d.now d.table e.table)
  (hcareful : ∀ key, op.refreshed? = some key → d.table.isLocked d.now key = true)
  (huser : (TendedOp.ask op).user? = some op)
include hnow h hcareful huser

/-- **One thing asked at two desks** at which the same locks are held: the same locks are held
behind it. -/
theorem alike_after : LockTable.Alike d.now (d.after op).table (e.after op).table := by
  unfold after
  cases op with
  | acquire cancelled key ttl =>
    cases cancelled with
    | true => exact h
    | false =>
      have hsame := h.isLocked key
      cases hlocked : d.table.isLocked d.now key with
      | true =>
        rw [step_acquire_of_locked ttl hlocked,
          step_acquire_of_locked ttl (by rw [hnow, hsame, hlocked])]
        exact h
      | false =>
        rw [step_acquire_of_free ttl hlocked,
          step_acquire_of_free ttl (by rw [hnow, hsame, hlocked]), h.drawn, hnow]
        exact h.put key _ _
  | release key => exact h.release key
  | releaseOwned key token => exact h.releaseOwned key token
  | refresh key ttl =>
    simp only [step, hnow]
    exact (h.refresh (hcareful key rfl) ttl).2
  | refreshOwned key token ttl =>
    simp only [step, hnow]
    exact (h.refreshOwned (hcareful key rfl) token ttl).2
  | look => exact h
  | sweep | pass => cases huser

/-- **The answer is the same**, too. -/
theorem answer_congr (htells : op.Tells = true) : e.answer op = d.answer op := by
  unfold answer
  cases op with
  | acquire cancelled key ttl =>
    cases cancelled with
    | true => rfl
    | false =>
      have hsame := h.isLocked key
      cases hlocked : d.table.isLocked d.now key with
      | true =>
        rw [step_acquire_of_locked ttl hlocked,
          step_acquire_of_locked ttl (by rw [hnow, hsame, hlocked])]
      | false =>
        rw [step_acquire_of_free ttl hlocked,
          step_acquire_of_free ttl (by rw [hnow, hsame, hlocked]), h.drawn]
  | release key => rfl
  | releaseOwned => cases htells
  | refresh key ttl =>
    simp only [step, hnow]
    rw [(h.refresh (hcareful key rfl) ttl).1]
  | refreshOwned key token ttl =>
    simp only [step, hnow]
    rw [(h.refreshOwned (hcareful key rfl) token ttl).1]
  | look key =>
    simp only [step, hnow]
    rw [h.isLocked key]
  | sweep | pass => cases huser

end LockDesk

/-! ## Runs -/

/-- **What users ask** in the course of a run that begins at an instant, each with the instant at
which it is asked. -/
def TendedOp.plan : Nat → List TendedOp → List (Nat × LockOp)
  | _, [] => []
  | now, op :: ops => (op.user?.map fun asked => (now, asked)).toList ++ plan (now + op.time) ops

namespace TendedDesk

/-- What a user is told of the locks that are held. -/
def told (d : TendedDesk) (op : TendedOp) : Option LockAnswer :=
  (op.user?.filter LockOp.Tells).map d.desk.answer

/-- **All that users are told** in the course of a run. -/
def transcript (d : TendedDesk) : List TendedOp → List LockAnswer
  | [] => []
  | op :: ops => (d.told op).toList ++ transcript (d.step op) ops

/-- **Only locks that are held are refreshed** in the course of a run. -/
def Careful (d : TendedDesk) : List TendedOp → Prop
  | [] => True
  | op :: ops =>
    (∀ key, op.user?.bind LockOp.refreshed? = some key → d.table.isLocked d.now key = true) ∧
      Careful (d.step op) ops

/-- **What users can tell of two runs**: nothing.  They are told the same, with the same tokens, and
as soon as the same has been asked in both, the same locks are held at every instant from then on.
Every sweep drops exactly what is expired, and gives the number of that. -/
structure Indistinguishable (d e : TendedDesk) (xs ys : List TendedOp) : Prop where
  transcript : e.transcript ys = d.transcript xs
  drawn : (e.run ys).table.drawn = (d.run xs).table.drawn
  held : ∀ xs' ys', xs' <+: xs → ys' <+: ys → TendedOp.plan d.now xs' = TendedOp.plan e.now ys' →
    ∀ now, (d.run xs').now ≤ now → (e.run ys').now ≤ now → ∀ key,
      ((e.run ys').passTo now).table.held now key = ((d.run xs').passTo now).table.held now key
  sweeps : ∀ (t : LockTable) instant, t.Swept instant (t.expired instant) (t.sweep instant)
  counts : ∀ xs', xs' <+: xs → ∃ n table,
    (d.run xs').desk.step .sweep = (.count n, ⟨(d.run xs').now, table⟩) ∧
      (d.run xs').table.Swept (d.run xs').now n table

/-- **Two runs are abreast** if the same locks are held from the later one's instant on. -/
def Abreast (d e : TendedDesk) : Prop := LockTable.Alike (max d.now e.now) d.table e.table

variable {d e : TendedDesk} {op : TendedOp} {xs ys : List TendedOp}

theorem transcript_of_idle (hop : op.user? = none) :
    d.transcript (op :: xs) = (d.step op).transcript xs := by
  rw [transcript, told, hop]
  rfl

theorem Abreast.symm (h : d.Abreast e) : e.Abreast d := by
  unfold Abreast at h ⊢
  rw [Nat.max_comm]
  exact LockTable.Alike.symm h

/-- **What no user asks in one run** leaves the two abreast. -/
theorem Abreast.left (h : d.Abreast e) (hop : op.user? = none) : (d.step op).Abreast e := by
  have hstep : LockTable.Alike (max (d.step op).now e.now) d.table (d.step op).table :=
    (d.thinned_step hop).toAlike.mono (Nat.le_max_left ..)
  refine hstep.symm.trans (LockTable.Alike.mono h ?_)
  have hle : d.now ≤ (d.step op).now := d.now_le_run [op]
  omega

theorem Abreast.right (h : d.Abreast e) (hop : op.user? = none) : d.Abreast (e.step op) :=
  (h.symm.left hop).symm

theorem plan_cons (d : TendedDesk) (op : TendedOp) (ops : List TendedOp) :
    TendedOp.plan d.now (op :: ops) = (op.user?.map fun asked => (d.now, asked)).toList ++
      TendedOp.plan (d.step op).now ops := by
  rw [now_step]
  rfl

/-- **What a user asks in both runs** at the same instant leaves the two abreast, and is answered
alike. -/
theorem Abreast.step (h : d.Abreast e) {asked : LockOp} (hop : op.user? = some asked)
    (hnow : e.now = d.now)
    (hcareful : ∀ key, asked.refreshed? = some key → d.table.isLocked d.now key = true) :
    (d.step op).Abreast (e.step op) ∧ e.told op = d.told op := by
  obtain rfl := TendedOp.eq_ask_of_user? hop
  have hpass : ∀ time, asked ≠ .pass time := by
    rintro time rfl
    cases hop
  have halike : LockTable.Alike d.desk.now d.desk.table e.desk.table := by
    unfold Abreast at h
    rwa [hnow, Nat.max_self] at h
  constructor
  · unfold Abreast
    rw [d.step_ask hpass, e.step_ask hpass]
    refine LockTable.Alike.mono (LockDesk.alike_after hnow halike hcareful hop) ?_
    exact Nat.le_trans (Nat.le_of_eq (d.desk.now_after hpass).symm) (Nat.le_max_left ..)
  · unfold told
    rw [hop]
    cases htells : asked.Tells with
    | true =>
      rw [Option.filter_some, if_pos htells]
      exact congrArg some (LockDesk.answer_congr hnow halike hcareful hop htells)
    | false => rw [Option.filter_some, if_neg (by rw [htells]; decide)]; rfl

/-- **Runs in which the same is asked stay abreast**, and users are told the same. -/
theorem Abreast.run (h : d.Abreast e)
    (hplan : TendedOp.plan d.now xs = TendedOp.plan e.now ys) (hcareful : d.Careful xs) :
    (d.run xs).Abreast (e.run ys) ∧ e.transcript ys = d.transcript xs := by
  -- upkeep is done in one run alone, what users ask is done in both together
  induction xs generalizing d e ys with
  | nil =>
    induction ys generalizing e with
    | nil => exact ⟨h, rfl⟩
    | cons op ys ih =>
      rw [plan_cons] at hplan
      cases hop : op.user? with
      | none =>
        rw [hop] at hplan
        obtain ⟨hrun, htold⟩ := ih (h.right hop) hplan
        exact ⟨hrun, (transcript_of_idle hop).trans htold⟩
      | some asked =>
        rw [hop] at hplan
        cases hplan
  | cons op xs ih =>
    rw [plan_cons] at hplan
    cases hop : op.user? with
    | none =>
      rw [hop] at hplan
      obtain ⟨hrun, htold⟩ := ih (h.left hop) hplan hcareful.2
      exact ⟨hrun, htold.trans (transcript_of_idle hop).symm⟩
    | some asked =>
      rw [hop] at hplan
      induction ys generalizing e with
      | nil => cases hplan
      | cons op' ys ih' =>
        rw [plan_cons] at hplan
        cases hop' : op'.user? with
        | none =>
          rw [hop'] at hplan
          obtain ⟨hrun, htold⟩ := ih' (h.right hop') hplan
          exact ⟨hrun, (transcript_of_idle hop').trans htold⟩
        | some asked' =>
          rw [hop'] at hplan
          obtain ⟨hhead, htail⟩ := List.cons.inj hplan
          obtain ⟨hnow, rfl⟩ := Prod.mk.inj hhead
          obtain rfl : op = op' :=
            (TendedOp.eq_ask_of_user? hop).trans (TendedOp.eq_ask_of_user? hop').symm
          have hkeys : ∀ key, asked.refreshed? = some key →
              d.table.isLocked d.now key = true := fun key hkey =>
            hcareful.1 key (by rw [hop]; exact hkey)
          obtain ⟨hstep, htold⟩ := h.step hop hnow.symm hkeys
          obtain ⟨hrun, hrest⟩ := ih hstep htail hcareful.2
          refine ⟨hrun, ?_⟩
          rw [transcript, transcript, htold, hrest]

theorem Careful.of_append {later : List TendedOp} (h : d.Careful (xs ++ later)) :
    d.Careful xs := by
  induction xs generalizing d with
  | nil => trivial
  | cons op xs ih => exact ⟨h.1, ih h.2⟩

/-- The passing of time leaves the same locks held at its end. -/
theorem Abreast.held_passTo (h : d.Abreast e) {now : Nat} (hd : d.now ≤ now) (he : e.now ≤ now)
    (key : String) : (e.passTo now).table.held now key = (d.passTo now).table.held now key := by
  rw [(thinned_passTo hd).held, (thinned_passTo he).held]
  exact (LockTable.Alike.mono h (Nat.max_le.mpr ⟨hd, he⟩)).held key

/-- **Upkeep goes unnoticed.** -/
theorem indistinguishable_run {desk : LockDesk} {r r' : Roster}
    (hplan : TendedOp.plan desk.now xs = TendedOp.plan desk.now ys)
    (hcareful : Careful ⟨desk, r⟩ xs) : Indistinguishable ⟨desk, r⟩ ⟨desk, r'⟩ xs ys := by
  have hstart : Abreast ⟨desk, r⟩ ⟨desk, r'⟩ := ⟨rfl, fun _ => rfl⟩
  obtain ⟨hrun, htold⟩ := hstart.run hplan hcareful
  refine ⟨htold, hrun.drawn, ?_, LockTable.swept_sweep, fun xs' _ => ?_⟩
  · rintro xs' ys' ⟨later, rfl⟩ - hplan' now hd he key
    exact (hstart.run hplan' hcareful.of_append).1.held_passTo hd he key
  · exact ⟨_, _, rfl, LockTable.swept_sweep ..⟩

/-- A lock that expires is taken anew and refreshed. -/
def sampleUse : List TendedOp :=
  [.ask (.acquire false "p" 10), .ask (.pass 15), .ask (.look "p"), .ask (.acquire false "p" 10),
    .ask (.refresh "p" 30), .ask (.pass 20), .ask (.look "p")]

/-- The same while a sweeper is at work, with sweeps in between. -/
def sampleUpkeep : List TendedOp :=
  [.start false 4, .ask (.acquire false "p" 10), .ask (.pass 12), .settle, .ask .sweep,
    .ask (.pass 3), .ask (.look "p"), .ask (.acquire false "p" 10), .ask (.refresh "p" 30),
    .stop 1, .ask (.pass 20), .ask (.look "p")]

/-- A user cannot tell the two from each other. -/
theorem indistinguishable_sample :
    TendedOp.plan 0 sampleUpkeep = TendedOp.plan 0 sampleUse ∧
      Careful ⟨.opened 0, .empty⟩ sampleUpkeep ∧
      Indistinguishable ⟨.opened 0, .empty⟩ ⟨.opened 0, .empty⟩ sampleUpkeep sampleUse := by
  have hplan : TendedOp.plan (LockDesk.opened 0).now sampleUpkeep =
      TendedOp.plan (LockDesk.opened 0).now sampleUse := rfl
  have hcareful : Careful ⟨.opened 0, .empty⟩ sampleUpkeep := by
    refine ⟨?_, ?_, ?_, ?_, ?_, ?_, ?_, ?_, ?_, ?_, ?_, ?_, trivial⟩ <;>
      intro key hkey <;> cases hkey
    -- the only refresh
    rfl
  exact ⟨hplan, hcareful, indistinguishable_run hplan hcareful⟩

end TendedDesk

end CatalogChain
