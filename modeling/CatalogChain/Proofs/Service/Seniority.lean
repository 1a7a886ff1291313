import CatalogChain.Proofs.Service.Invariants
import CatalogChain.Proofs.Service.Lineup
import CatalogChain.Proofs.Service.Listeners
import CatalogChain.Proofs.Service.Successes

/-!
# Products are listed in the order of their creation

Where calls have their turns one after the other, a call reads the clock and records its event in
one turn, so no other creation can come in between (`Service.senior_turn`).  Hence the creations are
in order at any station (`Service.TurnInvariant.station`), and while the clock goes on with every
reading, the pages are the lineup of the log (`Station.ranked_run`): whatever instants of creation
the candidates of updates carry, an update moves no product, a deletion only drops its product, and
a new product comes last.
-/

namespace CatalogChain

/-! ## Turns -/

/-- **A call at rest**: it has just arrived, or it has passed its check and sleeps. -/
def Call.Poised (c : Call) : Prop :=
  c.stage = .arrived ∨ c.request.needsLock = true ∧ c.request.check = .ok () ∧
    ∃ n wakeAt, c.stage = .asleep n wakeAt

/-- A turn is a write, or it leaves the service. -/
theorem Call.Continues.service {σ : Supply} {s : Service} {c : Call} {p : Service × Call}
    (h : Continues σ s c p) : p.1 = s ∨ ∃ locks, p.1 = { (s.write σ c.request).2 with locks } := by
  cases h with
  | idle => exact .inl rfl
  | writes => exact .inr ⟨_, rfl⟩

/-- **The turn of a call at rest** leaves the service or is a write; then the call has ended, or it
is at rest again. -/
theorem Call.Poised.resume (σ : Supply) (now : Nat) (cancelled : Bool) (s : Service) {c : Call}
    (h : c.Poised) :
    ((c.resume σ now cancelled s).1 = s ∨
      ∃ locks, (c.resume σ now cancelled s).1 = { (s.write σ c.request).2 with locks }) ∧
      (¬ (c.resume σ now cancelled s).2.isOver = true →
        (c.resume σ now cancelled s).2.Poised) := by
  cases hr : c.request.needsLock with
  | false =>
    -- a creation is made at once
    obtain ⟨request, stage⟩ := c
    obtain rfl : stage = .arrived := h.resolve_right fun hs => by
      rw [hr] at hs
      cases hs.1
    have hr : request.needsLock = false := hr
    have hfree : request.needsLock = true → s.locks.isLocked now request.lockKey = false :=
      fun hneeds => by
        rw [hr] at hneeds
        cases hneeds
    have hresume : (⟨request, .arrived⟩ : Call).resume σ now cancelled s =
        ((s.answer σ cancelled request).2, ⟨request, .finished (s.answer σ cancelled request).1⟩) :=
      resume_ofRequest hfree
    rw [hresume]
    refine ⟨?_, fun hover => absurd rfl hover⟩
    show (s.answer σ cancelled request).2 = s ∨ _
    unfold Service.answer
    cases request.check with
    | error v => exact .inl rfl
    | ok =>
      simp only [hr]
      exact .inr ⟨(s.write σ request).2.locks, rfl⟩
  | true =>
    have hcontinues : Continues σ s c (c.resume σ now cancelled s) :=
      continues_resume hr (h.imp_right And.right)
    refine ⟨hcontinues.service, fun hover => .inr ⟨hcontinues.request_eq ▸ hr, ?_, ?_⟩⟩
    · rw [hcontinues.request_eq]
      exact hcontinues.isOver_or_check.resolve_left hover
    · exact (isOver_or_asleep isSuspended_resume).resolve_left hover

namespace Service

/-- **A service whose creations are in order.** -/
def Senior (σ : Supply) (s : Service) : Prop :=
  ∃ es, s.log.Records es ∧ InOrder σ s.draws.readings es

variable {σ : Supply} {s : Service}

theorem senior_fresh (σ : Supply) (settings : WriteSettings) (feed : Feed) :
    (fresh settings feed).Senior σ := ⟨[], EventLog.records_empty, .nil σ 0⟩

theorem Senior.enter (h : s.Senior σ) (s' : Service) (e : Event) (hlog : s'.log = s.log)
    (hle : s.draws.readings ≤ s'.draws.readings)
    (he : e.kind = .created → ∃ k, s.draws.readings ≤ k ∧ k < s'.draws.readings ∧
      e.snapshot.createdAt = σ.reading k) : (s'.enter e).2.Senior σ := by
  obtain ⟨es, hrecords, horder⟩ := h
  rw [← hlog] at hrecords
  unfold Senior
  rw [s'.draws_enter e]
  unfold Service.enter
  rcases hrecords.append e with ⟨-, heq⟩ | ⟨-, hok, hnew⟩
  · rw [heq]
    exact ⟨es, hrecords, horder.mono hle⟩
  · rw [hok]
    exact ⟨_, hnew, horder.record hle he⟩

/-- **A write keeps the creations in order.** -/
theorem Senior.write (h : s.Senior σ) (r : Request) : (s.write σ r).2.Senior σ := by
  unfold Service.write prepare
  cases r.plan (s.live.get? r.target) with
  | refuse fault => exact h
  | create draft =>
    -- the first of the two readings is the instant of creation
    refine h.enter (s.creation σ draft).2 (s.creation σ draft).1 rfl (Nat.le_add_right _ 2)
      fun _ => ⟨s.draws.readings, Nat.le_refl _, ?_, rfl⟩
    exact Nat.lt_add_of_pos_right Nat.two_pos
  | revise current candidate =>
    exact h.enter (s.revision σ current candidate).2 (s.revision σ current candidate).1 rfl
      (Nat.le_add_right _ 2) fun hk => by cases hk
  | bury current =>
    exact h.enter (s.deletion σ current).2 (s.deletion σ current).1 rfl (Nat.le_add_right _ 1)
      fun hk => by cases hk

/-- **Every turn keeps the creations in order.** -/
theorem senior_turn : TurnInvariant σ (Senior σ) Call.Poised where
  resume s c now cancelled hs hc := by
    obtain ⟨hservice, hnext⟩ := hc.resume σ now cancelled s
    refine ⟨?_, hnext⟩
    rcases hservice with heq | ⟨locks, heq⟩
    · rw [heq]
      exact hs
    · rw [heq]
      exact hs.write c.request
  surround _ _ _ h := h

end Service

/-! ## Stations -/

/-- **A station within an invariant**, with all jobs of its crews. -/
structure Station.Within (I : Service → Prop) (J : Call → Prop) (w : Station) : Prop where
  service : I w.service
  crews : ∀ c ∈ w.crews, Crew.Within I J { c with deployment := w.deployment }

section Within
variable {I : Service → Prop} {J : Call → Prop}

theorem Crew.Within.moved {c : Crew} (h : c.Within I J) {d : Deployment} (hd : I d.service) :
    Crew.Within I J { c with deployment := d } := ⟨hd, h.queue, h.ready, h.sleeping⟩

/-- Who has begun before goes on with the new deployment. -/
theorem Station.Within.moved {w w' : Station} (h : w.Within I J) (hs : I w'.service)
    (hcrews : ∀ c ∈ w'.crews, c ∈ w.crews ∨
      Crew.Within I J { c with deployment := w'.deployment }) : w'.Within I J :=
  ⟨hs, fun c hc => (hcrews c hc).elim (fun hc => (h.crews c hc).moved hs) id⟩

variable {σ : Supply} (hI : Service.TurnInvariant σ I J) (hJ : ∀ r, J (.ofRequest r)) {w : Station}
include hI hJ

theorem Service.TurnInvariant.occur (h : w.Within I J) (o : Occurrence) :
    (w.step σ o).Within I J := by
  cases o with
  | write cancellation request =>
    exact h.moved (hI.write h.service (hJ request) cancellation) fun c hc => .inl hc
  | batch cancellation requests =>
    exact h.moved (hI.batch h.service (fun r _ => hJ r) cancellation) fun c hc => .inl hc
  | hire cancellation prompt places requests =>
    refine h.moved h.service fun c hc => ?_
    rcases List.mem_append.mp hc with hc | hc
    · exact .inl hc
    · rw [List.mem_singleton.mp hc]
      exact .inr (Crew.within_ofRequests h.service (fun r _ => hJ r) cancellation prompt places)
  | work i =>
    unfold Station.step
    simp only
    split
    · exact h
    · next c' hc' =>
      obtain ⟨c, hc, hs⟩ := Option.bind_eq_some_iff.mp hc'
      have hcrew := hI.step (h.crews c (List.mem_of_getElem? hc)) hs
      refine h.moved hcrew.service fun x hx => ?_
      rcases List.mem_or_eq_of_mem_set hx with hx | rfl
      · exact .inl hx
      · exact .inr hcrew
  | surround locks now roster sweeper =>
    exact h.moved (hI.surround _ locks w.service.feed h.service) fun c hc => .inl hc
  | subscribe name kind =>
    exact h.moved (hI.surround _ w.service.locks _ h.service) fun c hc => .inl hc
  | unsubscribe name =>
    exact h.moved (hI.surround _ w.service.locks _ h.service) fun c hc => .inl hc
  | read name limit =>
    unfold Station.step
    simp only
    split
    · exact h
    · exact h.moved (hI.surround _ w.service.locks _ h.service) fun c hc => .inl hc

/-- **What every turn keeps, a station keeps.** -/
theorem Service.TurnInvariant.station (h : w.Within I J) (os : List Occurrence) :
    (w.run σ os).Within I J := by
  induction os generalizing w with
  | nil => exact h
  | cons o os ih => exact ih (hI.occur hJ h o)

end Within

/-! ## Listings of a station -/

/-- **What a single write does to a listing**: a new product comes behind all others, a new value
takes the place of the old one, a product that is deleted drops out, and a write that fails leaves
everything as it is. -/
def Request.relist (ps : List Product) : Request → Outcome → List Product
  | _, .error _ => ps
  | .create _, .ok e => ps ++ [e.snapshot]
  | .update candidate, .ok e => ps.map fun p => if p.id = candidate.id then e.snapshot else p
  | .remove id, .ok _ => ps.filter fun p => p.id ≠ id

/-- The event of a single write that succeeds does to a listing what the write does. -/
theorem Request.Answered.follow_eq {live : LiveTable} {e : Event} {r : Request}
    (h : r.Answered live e) (hkeyed : live.Keyed) (ps : List Product) :
    e.follow ps = r.relist ps (.ok e) := by
  cases r with
  | create draft =>
    obtain ⟨now, -, hp⟩ := h
    rw [Event.follow, Event.kind, hp]
    rfl
  | update candidate =>
    obtain ⟨current, now, -, -, hid, hp⟩ := h
    rw [Event.follow, Event.kind, hp, hid]
    rfl
  | remove id =>
    obtain ⟨current, hget, hid, hp⟩ := h
    rw [Event.follow, Event.kind, hp, hid, hkeyed id current hget]
    rfl

/-- **A station lists its products in the order of their creations.** -/
structure Station.Ranked (σ : Supply) (w : Station) : Prop where
  /-- Of every product there is one creation, and they are numbered in ascending order. -/
  creations : (births w.recorded).Pairwise fun a b =>
    a.sequence < b.sequence ∧ a.entityId ≠ b.entityId
  /-- Every product that is there has its creation. -/
  born : ∀ id p, w.service.live.get? id = some p →
    p.id = id ∧ ∃ e ∈ births w.recorded, e.entityId = id
  /-- All pages together show the products that are there, one creation after the other. -/
  pages : ∀ size, w.service.live.pages size =
    (births w.recorded).filterMap fun e => w.service.live.get? e.entityId
  /-- They follow every single write, -/
  single : ∀ cancellation request outcome d',
    w.deployment.perform? σ cancellation request = some (outcome, d') →
      σ.RisesTo d'.service.draws.readings → ∀ size,
        d'.service.live.pages size = request.relist (w.service.live.pages size) outcome
  /-- and whatever else comes, the events that are recorded by it, one after the other. -/
  lasting : ∀ later, σ.RisesTo (w.run σ later).service.draws.readings →
    ∃ fs, (w.run σ later).recorded = w.recorded ++ fs ∧ ∀ size,
      (w.run σ later).service.live.pages size = fs.foldl Event.follow (w.service.live.pages size)

section Ranked
variable {σ : Supply}

/-- **The pages are the lineup of the log.** -/
theorem Agrees.pages_eq {es : List Event} {s : Service} (h : Agrees es s []) (hs : s.Senior σ)
    (hσ : σ.RisesTo s.draws.readings) (size : Nat) : s.live.pages size = lineup es := by
  obtain ⟨fs, hrecords, horder⟩ := hs
  obtain rfl : fs = es := hrecords.events.symm.trans h.records.events
  rw [LiveTable.pages_eq_listing, h.listing_eq horder hσ]

variable {capacity : Nat} {es : List Event} {w : Station} (h : w.Tuned capacity es)
  (hw : w.Within (Service.Senior σ) Call.Poised) (hσ : σ.RisesTo w.service.draws.readings)
include h hw hσ

theorem Station.Tuned.single {cancellation : Cancellation} {request : Request} {outcome : Outcome}
    {d' : Deployment} (hd : w.deployment.perform? σ cancellation request = some (outcome, d'))
    (hσ' : σ.RisesTo d'.service.draws.readings) (size : Nat) :
    d'.service.live.pages size = request.relist (w.service.live.pages size) outcome := by
  have hsenior : d'.service.Senior σ := by
    have hpoised : (Call.ofRequest request).Poised := .inl rfl
    have hwrite := Service.senior_turn.write hw.service hpoised cancellation
    rw [hd] at hwrite
    exact hwrite
  obtain ⟨gs, hagrees⟩ := h.agrees.perform? hd
  rw [h.agrees.eq_append hagrees (h.agrees.announces_perform? hd)] at hagrees
  rw [hagrees.pages_eq hsenior hσ', h.agrees.pages_eq hw.service hσ,
    lineup_append_all _ hagrees.agreement.lives]
  cases outcome with
  | error fault => cases request <;> rfl
  | ok e => exact (Deployment.answered_of_perform? hd).1.follow_eq h.agrees.keyed _

theorem Station.Tuned.ranked : w.Ranked σ where
  creations := by
    rw [h.recorded_eq]
    exact h.agrees.pairwise_births
  born id p hp := by
    rw [h.recorded_eq]
    exact ⟨h.agrees.keyed id p hp, h.agrees.exists_birth hp⟩
  pages size := by
    rw [h.recorded_eq, h.agrees.pages_eq hw.service hσ, h.agrees.lineup_eq]
  single cancellation request outcome d' hd hσ' size := h.single hw hσ hd hσ' size
  lasting later hσ' := by
    obtain ⟨fs, hlater⟩ := h.run σ later
    have hwithin := Service.senior_turn.station (fun _ => .inl rfl) hw later
    refine ⟨fs, by rw [hlater.recorded_eq, h.recorded_eq], fun size => ?_⟩
    rw [hlater.agrees.pages_eq hwithin.service hσ', h.agrees.pages_eq hw.service hσ,
      lineup_append_all fs hlater.agrees.agreement.lives]

end Ranked

/-- **Listing order is creation order**, for all the life of a station where the clock goes on with
every reading. -/
theorem Station.ranked_run {σ : Supply} {settings : WriteSettings} {capacity : Nat}
    {os : List Occurrence}
    (hσ : σ.RisesTo ((fresh settings capacity).run σ os).service.draws.readings) :
    ((fresh settings capacity).run σ os).Ranked σ := by
  obtain ⟨fs, htuned⟩ := (tuned_fresh settings capacity).run σ os
  have hfresh : (fresh settings capacity).Within (Service.Senior σ) Call.Poised :=
    ⟨Service.senior_fresh σ settings _, fun _ hc => by cases hc⟩
  exact htuned.ranked (Service.senior_turn.station (fun _ => .inl rfl) hfresh os) hσ

theorem Instant.validTime_second {second : Nat} (h : second < 60) : ValidTime 0 0 second 0 :=
  ⟨by decide, by decide, h, .inl (by decide)⟩

/-- A clock that goes on by a second with every reading, for a minute. -/
def Supply.ticking : Supply where
  token n := String.ofList (List.replicate (n + 1) '1')
  uuid _ := .nil
  reading n := ⟨1970, 1, 1, 0, 0, n % 60, 0, Instant.epoch.validDate,
    Instant.validTime_second (Nat.mod_lt n (Nat.succ_pos 59))⟩

/-- Two products are created, and a batch changes the one and deletes the other. -/
def Occurrence.sample : List Occurrence :=
  [.write .never (.create (Product.sample 899 0 "wh-1").content),
    .write .never (.create (Product.sample 799 0 "wh-1").content),
    .batch .never [.remove "prod_11", .update (Product.sample 89950 2 "wh-2")]]

theorem Station.ranked_sample :
    Supply.ticking.RisesTo
        ((fresh {} 4).run .ticking Occurrence.sample).service.draws.readings ∧
      ((fresh {} 4).run .ticking Occurrence.sample).recorded.map (·.kind) =
        [.created, .created, .deleted, .updated] ∧
      ((fresh {} 4).run .ticking Occurrence.sample).Ranked .ticking := by
  have hdrawn : ((fresh {} 4).run .ticking Occurrence.sample).service.draws.readings = 7 := by
    decide +kernel
  have hrises : Supply.ticking.RisesTo 7 := fun i j hij hj => by
    have hall : ∀ j < 7, ∀ i < j, Supply.ticking.reading i < Supply.ticking.reading j := by decide
    exact hall j hj i hij
  rw [← hdrawn] at hrises
  exact ⟨hrises, by decide +kernel, ranked_run hrises⟩

end CatalogChain
