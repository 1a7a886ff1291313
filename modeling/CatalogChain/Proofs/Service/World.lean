import CatalogChain.Proofs.Service.Deeds

/-!
# Many writers

Any number of calls work on one service.  They come and make their steps in any order
(`World.act`), whether they hold a lock or not: the locks may be taken away, swept, or handed out
twice between any two steps.  Of every writer it is kept in mind which value it has read.

`Accounted old es w` says what remains true.  The events that are recorded, those of old and those
of the writers, agree with the live table (`Agrees`); each of the latter has exactly one author; and
every writer has done with what it has read what it should: the event that it has made comes right
behind that value, or it has failed (`Writer.Honest`).
-/

namespace CatalogChain

/-! ## Writers -/

/-- The value that a call reads if it makes its step now. -/
def Call.sees (s : Service) (c : Call) : Option Product :=
  match c.stage with
  | .reading _ => s.live.get? c.request.target
  | _ => none

/-- **A writer**: a call, and the value that it has read. -/
structure Writer where
  call : Call
  seen : Option Product

/-- A step of a writer is a step of its call. -/
def Writer.step (σ : Supply) (now : Nat) (cancelled : Bool) (s : Service) (x : Writer) :
    Service × Writer :=
  let (s', call) := x.call.step σ now cancelled s
  (s', ⟨call, x.seen.or (x.call.sees s)⟩)

/-- **An event stems from what has been read**: it comes right behind that value.  Only a creation
stems from nothing. -/
def Event.StemsFrom (e : Event) : Option Product → Prop
  | none => e.kind = .created
  | some p => e.kind ≠ .created ∧ e.entityId = p.id ∧ e.version = p.version + 1 ∧
      e.previous = p.fingerprint

/-- **A writer is honest**: it has read nothing yet, or its event stems from what it has read, or it
has failed. -/
def Writer.Honest (x : Writer) : Prop :=
  match x.call.stage with
  | .arrived | .attempting _ | .asleep .. | .reading _ | .broken => x.seen = none
  | .appending _ e | .committing _ e | .publishing _ e | .releasing _ (.ok e) | .finished (.ok e) =>
    e.StemsFrom x.seen
  | .releasing _ (.error _) | .finished (.error _) => True

namespace Writer

theorem honest_conclude_error (c : Call) (lock : Option Token) (fault : Fault)
    (seen : Option Product) : Honest ⟨c.conclude lock (.error fault), seen⟩ := by
  cases lock <;> exact trivial

theorem honest_conclude_ok (c : Call) (lock : Option Token) {e : Event} {seen : Option Product}
    (h : e.StemsFrom seen) : Honest ⟨c.conclude lock (.ok e), seen⟩ := by
  cases lock <;> exact h

/-- The event that an honest writer has recorded stems from what it has read. -/
theorem Honest.stemsFrom {x : Writer} (h : x.Honest) {e : Event} (he : e ∈ x.call.written) :
    e.StemsFrom x.seen := by
  unfold Call.written Call.hand at he
  unfold Honest at h
  cases hs : x.call.stage with
  | arrived | attempting | asleep | reading | appending | broken =>
    rw [hs] at he
    cases he
  | committing lock a | publishing lock a =>
    rw [hs] at he h
    rw [List.mem_singleton.mp he]
    exact h
  | releasing lock outcome | finished outcome =>
    rw [hs] at he h
    cases outcome with
    | error fault => cases he
    | ok a =>
      rw [List.mem_singleton.mp he]
      exact h

variable {σ : Supply} {now : Nat} {cancelled : Bool} {es : List Event} {s s' : Service}
  {cs : List Call} {c' : Call} {x : Writer}

/-- **Writers stay honest.** -/
theorem Honest.moves (h : x.Honest) (ha : Agrees es s cs)
    (hm : Call.Moves σ now cancelled s x.call s' c') :
    Honest ⟨c', x.seen.or (x.call.sees s)⟩ := by
  -- only a step that reads the live table changes what has been read
  have hseen : (∀ lock, x.call.stage ≠ .reading lock) → x.seen.or (x.call.sees s) = x.seen := by
    intro hne
    have hnone : x.call.sees s = none := by
      unfold Call.sees
      split
      · next heq => exact absurd heq (hne _)
      · rfl
    rw [hnone, Option.or_none]
  unfold Honest at h
  cases hm with
  | invalid | despair | give => exact trivial
  | missing | conflict | reject => exact honest_conclude_error ..
  | seek hs | retry hs | crash hs | wake hs | grant hs =>
    rw [hs] at h
    rw [hseen (by simp [hs])]
    exact h
  | draft hs =>
    rw [hs] at h
    rw [hseen (by simp [hs]), show x.seen = none from h]
    exact rfl
  | @revise lock candidate current hs hr hp hv =>
    have hsees : x.call.sees s = some current := by
      rw [Call.sees, hs, hr]
      exact hp
    rw [hs] at h
    rw [hsees, show x.seen = none from h]
    refine ⟨EventKind.noConfusion, (ha.agreement.id_of_get? hp).symm, ?_, rfl⟩
    show candidate.version + 1 = current.version + 1
    rw [hv]
  | @bury lock current hs hr hp =>
    have hsees : x.call.sees s = some current := by
      rw [Call.sees, hs]
      exact hp
    rw [hs] at h
    rw [hsees, show x.seen = none from h]
    exact ⟨EventKind.noConfusion, rfl, rfl, rfl⟩
  | @record lock e recorded hs hok =>
    rw [hs] at h
    rw [hseen (by simp [hs])]
    rcases ha.records.append e with ⟨-, heq⟩ | ⟨-, heq, -⟩
    · rw [heq] at hok
      cases hok
    · rw [heq] at hok
      cases hok
      exact h
  | commit hs =>
    rw [hs] at h
    rw [hseen (by simp [hs])]
    exact h
  | publish hs =>
    rw [hs] at h
    rw [hseen (by simp [hs])]
    exact honest_conclude_ok _ _ h
  | @release lock outcome hs =>
    rw [hs] at h
    rw [hseen (by simp [hs])]
    cases outcome with
    | error fault => exact trivial
    | ok e => exact h
  | doze hs =>
    rw [hseen (by simp [hs])]
    unfold Honest
    exact h
  | ended hs =>
    have hne : ∀ lock, x.call.stage ≠ .reading lock := by
      intro lock heq
      rw [Call.isOver, heq] at hs
      cases hs
    rw [hseen hne]
    unfold Honest
    exact h

end Writer

/-! ## Worlds -/

/-- **A service and its writers**, in the order in which they have come. -/
structure World where
  service : Service
  writers : List Writer

/-- **What can happen in a world.** -/
inductive Action where
  /-- A call arrives. -/
  | arrive (request : Request)
  /-- A writer makes its next step. -/
  | advance (i now : Nat) (cancelled : Bool)
  /-- Anything at all happens to the locks and to the feed. -/
  | disturb (locks : LockTable) (feed : Feed)

namespace World

/-- A new service without writers. -/
def fresh (settings : WriteSettings) (feed : Feed) : World := ⟨.fresh settings feed, []⟩

/-- The calls of the writers. -/
def calls (w : World) : List Call := w.writers.map (·.call)

/-- **One action.** -/
def act (σ : Supply) (w : World) : Action → World
  | .arrive request => { w with writers := w.writers ++ [⟨.ofRequest request, none⟩] }
  | .advance i now cancelled =>
    match w.writers[i]? with
    | none => w
    | some x =>
      let (service, x) := x.step σ now cancelled w.service
      ⟨service, w.writers.set i x⟩
  | .disturb locks feed => { w with service := { w.service with locks, feed } }

/-- **A run**: actions in any number and order. -/
def run (σ : Supply) (w : World) (actions : List Action) : World := actions.foldl (act σ) w

/-- A writer has read a value. -/
def Read (w : World) (i : Nat) (p : Product) : Prop :=
  ∃ x, w.writers[i]? = some x ∧ x.seen = some p

/-- A writer has recorded an event. -/
def Wrote (w : World) (i : Nat) (e : Event) : Prop :=
  ∃ x, w.writers[i]? = some x ∧ e ∈ x.call.written

/-- A writer has ended with an outcome. -/
def Ended (w : World) (i : Nat) (outcome : Outcome) : Prop :=
  ∃ x, w.writers[i]? = some x ∧ x.call.outcome? = some outcome

/-- What has been read and recorded stays so. -/
structure Grows (w w' : World) : Prop where
  read : ∀ i p, w.Read i p → w'.Read i p
  wrote : ∀ i e, w.Wrote i e → w'.Wrote i e

theorem Grows.refl (w : World) : w.Grows w := ⟨fun _ _ h => h, fun _ _ h => h⟩

theorem Grows.trans {w₁ w₂ w₃ : World} (h : w₁.Grows w₂) (h' : w₂.Grows w₃) : w₁.Grows w₃ :=
  ⟨fun i p hr => h'.read i p (h.read i p hr), fun i e hw => h'.wrote i e (h.wrote i e hw)⟩

/-- **The account of a world**: what is recorded agrees with the live table, every event that has
come after the old ones has exactly one author, and all writers are honest. -/
structure Accounted (old es : List Event) (w : World) : Prop where
  agrees : Agrees (old ++ es) w.service w.calls
  author : ∀ e, e ∈ es ↔ ∃ i, w.Wrote i e
  lone : ∀ i j e, w.Wrote i e → w.Wrote j e → i = j
  honest : ∀ x ∈ w.writers, x.Honest

variable {σ : Supply} {old es : List Event} {w : World}

/-- Nobody has written yet. -/
theorem accounted_nil {s : Service} (h : Agrees old s []) : Accounted old [] ⟨s, []⟩ where
  agrees := by
    rw [List.append_nil]
    exact h
  author e := by
    constructor
    · intro he
      cases he
    · rintro ⟨i, x, hi, -⟩
      cases hi
  lone i j e := by
    rintro ⟨x, hi, -⟩
    cases hi
  honest x hx := by cases hx

/-! ### One writer more -/

theorem getElem?_concat_of_some {ws : List Writer} {i : Nat} {y : Writer} (h : ws[i]? = some y)
    (x : Writer) : (ws ++ [x])[i]? = some y :=
  (List.getElem?_append_left (List.getElem?_eq_some_iff.mp h).1).trans h

theorem grows_concat (s : Service) (ws : List Writer) (x : Writer) :
    Grows ⟨s, ws⟩ ⟨s, ws ++ [x]⟩ where
  read _ _ := by
    rintro ⟨y, hy, hp⟩
    exact ⟨y, getElem?_concat_of_some hy x, hp⟩
  wrote _ _ := by
    rintro ⟨y, hy, he⟩
    exact ⟨y, getElem?_concat_of_some hy x, he⟩

/-- A call that has just arrived has recorded nothing. -/
theorem wrote_concat_iff {s : Service} {ws : List Writer} {x : Writer} (hx : x.call.written = [])
    {i : Nat} {e : Event} : Wrote ⟨s, ws ++ [x]⟩ i e ↔ Wrote ⟨s, ws⟩ i e := by
  refine ⟨?_, (grows_concat s ws x).wrote i e⟩
  rintro ⟨y, hi, he⟩
  rcases Nat.lt_or_ge i ws.length with hlt | hge
  · exact ⟨y, (List.getElem?_append_left hlt).symm.trans hi, he⟩
  · have hi : (ws ++ [x])[i]? = some y := hi
    rw [List.getElem?_append_right hge] at hi
    rw [List.mem_singleton.mp (List.mem_of_getElem? hi), hx] at he
    cases he

theorem Accounted.arrive (h : Accounted old es w) (request : Request) :
    Accounted old es { w with writers := w.writers ++ [⟨.ofRequest request, none⟩] } where
  agrees := by
    have hcalls : calls { w with writers := w.writers ++ [⟨.ofRequest request, none⟩] } =
        w.calls ++ [.ofRequest request] := List.map_append
    rw [hcalls]
    exact h.agrees.arrive trivial rfl
  author e := by
    rw [h.author]
    exact exists_congr fun i => (wrote_concat_iff rfl).symm
  lone i j e hi hj := h.lone i j e ((wrote_concat_iff rfl).mp hi) ((wrote_concat_iff rfl).mp hj)
  honest x hx := by
    rcases List.mem_append.mp hx with hx | hx
    · exact h.honest x hx
    · rw [List.mem_singleton.mp hx]
      exact rfl

/-! ### One step of a writer -/

theorem getElem?_set_eq_some_iff {ws : List Writer} {i j : Nat} {x y z : Writer}
    (h : ws[i]? = some x) :
    (ws.set i y)[j]? = some z ↔ j = i ∧ z = y ∨ j ≠ i ∧ ws[j]? = some z := by
  obtain ⟨hi, -⟩ := List.getElem?_eq_some_iff.mp h
  rw [List.getElem?_set]
  by_cases hij : i = j
  · rw [if_pos hij, if_pos hi, Option.some.injEq]
    constructor
    · rintro rfl
      exact .inl ⟨hij.symm, rfl⟩
    · rintro (⟨-, rfl⟩ | ⟨hne, -⟩)
      · rfl
      · exact absurd hij.symm hne
  · rw [if_neg hij]
    constructor
    · exact fun hj => .inr ⟨Ne.symm hij, hj⟩
    · rintro (⟨heq, -⟩ | ⟨-, hj⟩)
      · exact absurd heq.symm hij
      · exact hj

section Step
variable {s : Service} {i : Nat} {x y : Writer} {fs : List Event} (hi : w.writers[i]? = some x)
  (hw : y.call.written = x.call.written ++ fs)
include hi hw

/-- A step of a writer adds to what this one has recorded. -/
theorem wrote_set_iff {j : Nat} {e : Event} :
    Wrote ⟨s, w.writers.set i y⟩ j e ↔ w.Wrote j e ∨ j = i ∧ e ∈ fs := by
  constructor
  · rintro ⟨z, hz, he⟩
    rcases (getElem?_set_eq_some_iff hi).mp hz with ⟨rfl, rfl⟩ | ⟨-, hz⟩
    · rw [hw] at he
      rcases List.mem_append.mp he with he | he
      · exact .inl ⟨x, hi, he⟩
      · exact .inr ⟨rfl, he⟩
    · exact .inl ⟨z, hz, he⟩
  · rintro (⟨z, hz, he⟩ | ⟨rfl, he⟩)
    · by_cases hji : j = i
      · subst hji
        cases hi.symm.trans hz
        refine ⟨y, (getElem?_set_eq_some_iff hi).mpr (.inl ⟨rfl, rfl⟩), ?_⟩
        rw [hw]
        exact List.mem_append_left fs he
      · exact ⟨z, (getElem?_set_eq_some_iff hi).mpr (.inr ⟨hji, hz⟩), he⟩
    · refine ⟨y, (getElem?_set_eq_some_iff hi).mpr (.inl ⟨rfl, rfl⟩), ?_⟩
      rw [hw]
      exact List.mem_append_right _ he

theorem grows_set (hseen : ∀ p, x.seen = some p → y.seen = some p) :
    w.Grows ⟨s, w.writers.set i y⟩ where
  read j p := by
    rintro ⟨z, hz, hp⟩
    by_cases hji : j = i
    · subst hji
      cases hi.symm.trans hz
      exact ⟨y, (getElem?_set_eq_some_iff hi).mpr (.inl ⟨rfl, rfl⟩), hseen p hp⟩
    · exact ⟨z, (getElem?_set_eq_some_iff hi).mpr (.inr ⟨hji, hz⟩), hp⟩
  wrote j e hj := (wrote_set_iff hi hw).mpr (.inl hj)

/-- What one writer records keeps the account, provided that the service agrees with it. -/
theorem Accounted.set (h : Accounted old es w) 
    (ha : Agrees (old ++ (es ++ fs)) s (w.calls.set i y.call))
    (hy : y.Honest) : Accounted old (es ++ fs) ⟨s, w.writers.set i y⟩ where
  agrees := by
    have hcalls : calls ⟨s, w.writers.set i y⟩ = w.calls.set i y.call := List.map_set
    rw [hcalls]
    exact ha
  author e := by
    rw [List.mem_append, h.author]
    constructor
    · rintro (⟨j, hj⟩ | he)
      · exact ⟨j, (wrote_set_iff hi hw).mpr (.inl hj)⟩
      · exact ⟨i, (wrote_set_iff hi hw).mpr (.inr ⟨rfl, he⟩)⟩
    · rintro ⟨j, hj⟩
      rcases (wrote_set_iff hi hw).mp hj with hj | ⟨-, he⟩
      · exact .inl ⟨j, hj⟩
      · exact .inr he
  lone j k e hj hk := by
    -- no event is recorded for a second time
    have hnodup := (List.nodup_append.mp ha.records.nodup).2.1
    have hfresh : ∀ j, w.Wrote j e → e ∉ fs := fun j hj he =>
      (List.nodup_append.mp hnodup).2.2 e ((h.author e).mpr ⟨j, hj⟩) e he rfl
    rcases (wrote_set_iff hi hw).mp hj with hj | ⟨hji, hej⟩ <;>
      rcases (wrote_set_iff hi hw).mp hk with hk | ⟨hki, hek⟩
    · exact h.lone j k e hj hk
    · exact absurd hek (hfresh j hj)
    · exact absurd hej (hfresh k hk)
    · rw [hji, hki]
  honest z hz := by
    rcases List.mem_or_eq_of_mem_set hz with hz | rfl
    · exact h.honest z hz
    · exact hy

end Step

/-! ### Runs -/

theorem act_advance_of_some {i now : Nat} {cancelled : Bool} {x : Writer}
    (hi : w.writers[i]? = some x) : w.act σ (.advance i now cancelled) =
      ⟨(x.step σ now cancelled w.service).1,
        w.writers.set i (x.step σ now cancelled w.service).2⟩ := by
  unfold act
  simp only [hi]

theorem act_advance_of_none {i now : Nat} {cancelled : Bool} (hi : w.writers[i]? = none) :
    w.act σ (.advance i now cancelled) = w := by
  unfold act
  simp only [hi]

/-- **Every action keeps the account**, with the events that it records. -/
theorem Accounted.act (h : Accounted old es w) (action : Action) :
    ∃ fs, Accounted old (es ++ fs) (w.act σ action) ∧ w.Grows (w.act σ action) := by
  cases action with
  | arrive request =>
    refine ⟨[], ?_, grows_concat ..⟩
    rw [List.append_nil]
    exact h.arrive request
  | disturb locks feed =>
    refine ⟨[], ?_, fun _ _ hr => hr, fun _ _ hw => hw⟩
    rw [List.append_nil]
    exact ⟨h.agrees.elsewhere rfl rfl, h.author, h.lone, h.honest⟩
  | advance i now cancelled =>
    cases hi : w.writers[i]? with
    | none =>
      rw [act_advance_of_none hi]
      exact ⟨[], by rwa [List.append_nil], .refl w⟩
    | some x =>
      rw [act_advance_of_some hi]
      have hcall : w.calls[i]? = some x.call := by
        rw [calls, List.getElem?_map, hi]
        rfl
      have hmoves := x.call.step_moves σ now cancelled w.service
      have hhonest := (h.honest x (List.mem_of_getElem? hi)).moves h.agrees hmoves
      obtain ⟨fs, hagrees, hwritten⟩ := h.agrees.moves hcall hmoves
      rw [List.append_assoc] at hagrees
      refine ⟨fs, h.set hi hwritten hagrees hhonest, grows_set hi hwritten fun p hp => ?_⟩
      show x.seen.or _ = some p
      rw [hp, Option.some_or]

theorem Accounted.run (h : Accounted old es w) (actions : List Action) :
    ∃ fs, Accounted old (es ++ fs) (w.run σ actions) ∧ w.Grows (w.run σ actions) := by
  induction actions generalizing es w with
  | nil => exact ⟨[], by rwa [List.append_nil], .refl w⟩
  | cons action actions ih =>
    obtain ⟨fs, hact, hgrows⟩ := h.act (σ := σ) action
    obtain ⟨gs, hrun, hgrows'⟩ := ih hact
    refine ⟨fs ++ gs, ?_, hgrows.trans hgrows'⟩
    rw [← List.append_assoc]
    exact hrun

end World

end CatalogChain
