import CatalogChain.Proofs.EventLog.Queries
import CatalogChain.Proofs.Product.Validation
import CatalogChain.Proofs.Service.Agreement
import CatalogChain.Proofs.Service.Moves

/-!
# What calls do to a service

The events that a service makes for its writes fit into the life of their product: a creation
begins one (`Service.creation_sound`), and an update or a deletion goes on with it behind the event
that the current value stems from (`Service.revision_succeeds`, `Service.deletion_succeeds`).  So
every move of a call is one of the steps that keep the log and the live table in agreement
(`Agrees.moves`).
-/

namespace CatalogChain

/-! ## Events of writes -/

theorem Product.fingerprint_sealed (p : Product) :
    p.sealed.fingerprint = p.sealed.computeFingerprint :=
  of_decide_eq_true p.hasValidFingerprint_sealed

namespace Service

variable (σ : Supply) (s : Service)

/-- A creation begins the life of its product. -/
theorem creation_sound {draft : Content} (h : draft.validate = .ok ()) :
    (s.creation σ draft).1.Sound (s.creation σ draft).1.entityId ∧
      (s.creation σ draft).1.Begins := by
  refine ⟨⟨rfl, rfl, ?_, Product.fingerprint_sealed _, rfl⟩, rfl, rfl⟩
  exact (Product.validate_ofContent σ _ draft _).mpr h

variable {id : String} {b : Event} {current : Product}

/-- An update goes on behind the event that the current value stems from. -/
theorem revision_succeeds {candidate : Product} (hb : b.Sound id) (hk : b.kind ≠ .deleted)
    (hcurrent : b.snapshot = current) (hid : candidate.id = id)
    (hc : candidate.validate = .ok ()) (hv : candidate.version = current.version) :
    (s.revision σ current candidate).1.Sound id ∧
      Event.Succeeds id b (s.revision σ current candidate).1 := by
  have hversion : current.version = b.version := by
    rw [← hcurrent, hb.version, if_neg hk]
  refine ⟨⟨hid, hid, Product.validate_bump hc, Product.fingerprint_sealed _, rfl⟩,
    ⟨hid, ?_, ?_⟩, hk, EventKind.noConfusion, EventKind.noConfusion, fun _ => ?_, ?_⟩
  · show candidate.version + 1 = b.version + 1
    rw [hv, hversion]
  · show current.fingerprint = b.snapshot.fingerprint
    rw [hcurrent]
  · rw [hcurrent]
    rfl
  · show current.createdAt = b.snapshot.createdAt
    rw [hcurrent]

/-- A deletion goes on behind the event that the current value stems from. -/
theorem deletion_succeeds (hb : b.Sound id) (hk : b.kind ≠ .deleted)
    (hcurrent : b.snapshot = current) :
    (s.deletion σ current).1.Sound id ∧ Event.Succeeds id b (s.deletion σ current).1 := by
  subst hcurrent
  have hversion : b.snapshot.version = b.version := by
    rw [hb.version, if_neg hk]
  refine ⟨⟨hb.snapshot_id, hb.snapshot_id, hb.valid, hb.genuine, ?_⟩,
    ⟨hb.snapshot_id, ?_, rfl⟩, hk, EventKind.noConfusion, fun _ => rfl,
    EventKind.noConfusion, rfl⟩
  · show b.snapshot.version = b.snapshot.version + 1 - 1
    omega
  · show b.snapshot.version + 1 = b.version + 1
    rw [hversion]

end Service

/-! ## Calls -/

namespace Call

/-- What a call has in hand. -/
def hand (c : Call) : Hand :=
  match c.stage with
  | .appending _ e => .prepared e
  | .committing _ e => .pending e
  | .publishing _ e | .releasing _ (.ok e) | .finished (.ok e) => .done e
  | _ => .empty

/-- A call that goes for a lock has passed its check, and is about a product that is there. -/
def Sane (c : Call) : Prop :=
  match c.stage with
  | .attempting _ | .asleep .. | .reading _ =>
    c.request.needsLock = true ∧ c.request.check = .ok ()
  | _ => True

/-- The event that a call has recorded, if it has come so far. -/
def written (c : Call) : List Event :=
  match c.hand with
  | .pending e | .done e => [e]
  | _ => []

theorem hand_eq_pending_iff {c : Call} {e : Event} :
    c.hand = .pending e ↔ ∃ lock, c.stage = .committing lock e := by
  constructor
  · intro h
    unfold hand at h
    split at h
    · cases h
    · next hs =>
      cases h
      exact ⟨_, hs⟩
    all_goals cases h
  · rintro ⟨lock, hs⟩
    rw [hand, hs]

theorem hand_conclude_error (c : Call) (lock : Option Token) (fault : Fault) :
    (c.conclude lock (.error fault)).hand = .empty := by
  cases lock <;> rfl

theorem hand_conclude_ok (c : Call) (lock : Option Token) (e : Event) :
    (c.conclude lock (.ok e)).hand = .done e := by
  cases lock <;> rfl

theorem sane_conclude (c : Call) (lock : Option Token) (outcome : Outcome) :
    (c.conclude lock outcome).Sane := by
  cases lock <;> exact trivial

variable {σ : Supply} {now : Nat} {cancelled : Bool} {s s' : Service} {c c' : Call}

theorem Moves.sane (h : Moves σ now cancelled s c s' c') (hc : c.Sane) : c'.Sane := by
  cases h with
  | seek hs hr hv => exact ⟨hr, hv⟩
  | grant hs | retry hs | wake hs =>
    unfold Sane at hc
    rw [hs] at hc
    exact hc
  | doze | ended => exact hc
  | missing | conflict | reject | publish => exact sane_conclude ..
  | invalid | draft | give | crash | despair | revise | bury | record | commit | release =>
    exact trivial

end Call

/-! ## Services -/

/-- What each of some calls has in hand. -/
def handsOf (cs : List Call) (i : Nat) : Hand := (cs[i]?.map Call.hand).getD .empty

theorem handsOf_eq {cs : List Call} {i : Nat} {c : Call} (h : cs[i]? = some c) :
    handsOf cs i = c.hand := by
  rw [handsOf, h]
  rfl

theorem exists_of_handsOf {cs : List Call} {i : Nat} {x : Hand} (h : handsOf cs i = x)
    (hx : x ≠ .empty) : ∃ c ∈ cs, c.hand = x := by
  unfold handsOf at h
  cases hc : cs[i]? with
  | none =>
    rw [hc] at h
    exact absurd h.symm hx
  | some c =>
    rw [hc] at h
    exact ⟨c, List.mem_of_getElem? hc, h⟩

theorem handsOf_set {cs : List Call} {i : Nat} {c : Call} (h : cs[i]? = some c) (c' : Call) :
    handsOf (cs.set i c') = Function.update (handsOf cs) i c'.hand := by
  obtain ⟨hi, -⟩ := List.getElem?_eq_some_iff.mp h
  funext j
  rw [Function.update_apply, handsOf, List.getElem?_set]
  split_ifs with hij hji
  · rfl
  · exact absurd hij.symm hji
  · omega
  · rfl

/-- **A service agrees with a list of events** while some calls are under way: its log records the
list, its live table agrees with it, and the calls are sane. -/
structure Agrees (es : List Event) (s : Service) (cs : List Call) : Prop where
  records : s.log.Records es
  agreement : Agreement es s.live (handsOf cs)
  sane : ∀ c ∈ cs, c.Sane

namespace Agrees

variable {es : List Event} {s s' : Service} {cs : List Call} {i : Nat} {c c' : Call}

theorem fresh (settings : WriteSettings) (feed : Feed) :
    Agrees [] (Service.fresh settings feed) [] where
  records := EventLog.records_empty
  agreement := agreement_empty
  sane _ h := by cases h

theorem sane_set (h : Agrees es s cs) (hc : c'.Sane) : ∀ d ∈ cs.set i c', d.Sane := by
  intro d hd
  rcases List.mem_or_eq_of_mem_set hd with hd | rfl
  · exact h.sane d hd
  · exact hc

/-- The history of a product is what its events tell, in the order of recording. -/
theorem history_eq (h : Agrees es s cs) (id : String) : s.log.history id = trail id es := by
  refine List.Perm.eq_of_pairwise ?_
    (h.records.ascending id) (h.agreement.lives id).ascending (h.records.history_perm id)
  intro a b _ _ hab hba
  omega

theorem life_history (h : Agrees es s cs) (id : String) : Life id (s.log.history id) := by
  rw [h.history_eq]
  exact h.agreement.lives id

/-- A product of which no event waits to be committed is shown as its history leaves it. -/
theorem get?_eq_current (h : Agrees es s cs) {id : String}
    (hid : ∀ c ∈ cs, ∀ p, c.hand = .pending p → p.entityId ≠ id) :
    s.live.get? id = current (s.log.history id) := by
  rw [h.history_eq]
  refine h.agreement.settled id fun i p hi => ?_
  obtain ⟨c, hc, hp⟩ := exists_of_handsOf hi (by simp)
  exact hid c hc p hp

/-- A step that leaves the log and the live table alone. -/
theorem still (h : Agrees es s cs) (hi : cs[i]? = some c) (hc : c'.Sane) (hlog : s'.log = s.log)
    (hlive : s'.live = s.live) (hw : c'.written = c.written)
    (ha : Agreement es s.live (Function.update (handsOf cs) i c'.hand)) :
    ∃ fs, Agrees (es ++ fs) s' (cs.set i c') ∧ c'.written = c.written ++ fs := by
  refine ⟨[], ⟨?_, ?_, h.sane_set hc⟩, ?_⟩
  · rw [List.append_nil, hlog]
    exact h.records
  · rw [List.append_nil, hlive, handsOf_set hi]
    exact ha
  · rw [List.append_nil, hw]

/-- A step of a call that keeps what it has in hand. -/
theorem aside (h : Agrees es s cs) (hi : cs[i]? = some c) (hc : c'.Sane) (hlog : s'.log = s.log)
    (hlive : s'.live = s.live) (hhand : c'.hand = c.hand) :
    ∃ fs, Agrees (es ++ fs) s' (cs.set i c') ∧ c'.written = c.written ++ fs := by
  refine h.still hi hc hlog hlive (by rw [Call.written, Call.written, hhand]) ?_
  rw [hhand, ← handsOf_eq hi, Function.update_eq_self]
  exact h.agreement

/-- A step of a call that prepares an event. -/
theorem prepared (h : Agrees es s cs) (hi : cs[i]? = some c) (hc : c'.Sane)
    (hlog : s'.log = s.log) (hlive : s'.live = s.live) (hempty : c.hand = .empty) {e : Event}
    (hhand : c'.hand = .prepared e)
    (ha : Agreement es s.live (Function.update (handsOf cs) i (.prepared e))) :
    ∃ fs, Agrees (es ++ fs) s' (cs.set i c') ∧ c'.written = c.written ++ fs := by
  have hw : c'.written = c.written := by
    rw [Call.written, Call.written, hempty, hhand]
  rw [← hhand] at ha
  exact h.still hi hc hlog hlive hw ha

section Append
variable {lock : Option Token} {e : Event}

/-- A call records its event. -/
theorem record (h : Agrees es s cs) (hi : cs[i]? = some c) (hs : c.stage = .appending lock e)
    {recorded : Event} (ha : (s.log.append e).1 = .ok recorded) :
    ∃ fs, Agrees (es ++ fs) { s with log := (s.log.append e).2 }
        (cs.set i (c.goto (.committing lock recorded))) ∧
      (c.goto (.committing lock recorded)).written = c.written ++ fs := by
  have hprepared : c.hand = .prepared e := by rw [Call.hand, hs]
  rcases h.records.append e with ⟨-, heq⟩ | ⟨hfree, hok, hrec⟩
  · rw [heq] at ha
    cases ha
  · rw [hok] at ha
    cases ha
    refine ⟨[e.numbered (es.length + 1)], ⟨hrec, ?_, h.sane_set trivial⟩, ?_⟩
    · rw [handsOf_set hi]
      exact h.agreement.record ((handsOf_eq hi).trans hprepared) hfree _
    · rw [Call.written, Call.written, hprepared]
      rfl

/-- The log refuses the event of a call. -/
theorem reject (h : Agrees es s cs) (hi : cs[i]? = some c) (hs : c.stage = .appending lock e)
    {fault : Fault} (ha : (s.log.append e).1 = .error fault) :
    ∃ fs, Agrees (es ++ fs) { s with log := (s.log.append e).2 }
        (cs.set i (c.conclude lock (.error fault))) ∧
      (c.conclude lock (.error fault)).written = c.written ++ fs := by
  have hprepared : c.hand = .prepared e := by rw [Call.hand, hs]
  rcases h.records.append e with ⟨-, heq⟩ | ⟨-, hok, -⟩
  · -- the log is as it was, and the call has nothing in hand any more
    refine h.still hi (Call.sane_conclude ..) (by rw [heq]) rfl ?_ ?_
    · rw [Call.written, Call.written, hprepared, Call.hand_conclude_error]
    · rw [Call.hand_conclude_error]
      refine h.agreement.drop fun p hp => ?_
      rw [handsOf_eq hi, hprepared] at hp
      cases hp
  · rw [hok] at ha
    cases ha

/-- A call commits its event. -/
theorem commit (h : Agrees es s cs) (hi : cs[i]? = some c) (hs : c.stage = .committing lock e) :
    ∃ fs, Agrees (es ++ fs) { s with live := s.live.apply e }
        (cs.set i (c.goto (.publishing lock e))) ∧
      (c.goto (.publishing lock e)).written = c.written ++ fs := by
  have hpending : c.hand = .pending e := by rw [Call.hand, hs]
  refine ⟨[], ⟨?_, ?_, h.sane_set trivial⟩, ?_⟩
  · rw [List.append_nil]
    exact h.records
  · rw [List.append_nil, handsOf_set hi]
    exact h.agreement.commit ((handsOf_eq hi).trans hpending)
  · rw [List.append_nil, Call.written, Call.written, hpending]
    rfl

end Append

variable {σ : Supply} {now : Nat} {cancelled : Bool}

/-- **Every move keeps the agreement**, and at most records one event more, which is then the one
that the call has written. -/
theorem moves (h : Agrees es s cs) (hi : cs[i]? = some c)
    (hm : Call.Moves σ now cancelled s c s' c') :
    ∃ fs, Agrees (es ++ fs) s' (cs.set i c') ∧ c'.written = c.written ++ fs := by
  have hsane := h.sane c (List.mem_of_getElem? hi)
  have hsane' := hm.sane hsane
  have hhand := handsOf_eq hi
  cases hm with
  | invalid hs | seek hs | grant hs | retry hs | crash hs | despair hs | wake hs =>
    refine h.aside hi hsane' rfl rfl ?_
    unfold Call.hand
    rw [hs]
    rfl
  | give hs =>
    refine h.aside hi hsane' rfl rfl ?_
    unfold Call.hand
    rcases hs with hs | ⟨wakeAt, hs⟩ <;> rw [hs] <;> rfl
  | doze | ended => exact h.aside hi hsane' rfl rfl rfl
  | missing hs | conflict hs =>
    refine h.aside hi hsane' rfl rfl ?_
    rw [Call.hand_conclude_error, Call.hand, hs]
  | publish hs =>
    refine h.aside hi hsane' rfl rfl ?_
    rw [Call.hand_conclude_ok, Call.hand, hs]
  | @release lock outcome hs =>
    refine h.aside hi hsane' rfl rfl ?_
    unfold Call.hand
    rw [hs]
    cases outcome <;> rfl
  | draft hs hr hv =>
    have hempty : c.hand = .empty := by rw [Call.hand, hs]
    obtain ⟨hsound, hbegins⟩ := Service.creation_sound σ s hv
    have ha := h.agreement.prepare_first (hhand.trans hempty) hsound hbegins
    exact h.prepared hi hsane' rfl rfl hempty rfl ha
  | @revise lock candidate current hs hr hp hv =>
    have hempty : c.hand = .empty := by rw [Call.hand, hs]
    have hvalid : candidate.validate = .ok () := by
      unfold Call.Sane at hsane
      rw [hs, hr] at hsane
      exact hsane.2
    have ha := h.agreement.prepare_later (hhand.trans hempty) hp fun b hb hk hsnap =>
      s.revision_succeeds σ hb hk hsnap rfl hvalid hv
    exact h.prepared hi hsane' rfl rfl hempty rfl ha
  | bury hs hr hp =>
    have hempty : c.hand = .empty := by rw [Call.hand, hs]
    have ha := h.agreement.prepare_later (hhand.trans hempty) hp fun b hb hk hsnap =>
      s.deletion_succeeds σ hb hk hsnap
    exact h.prepared hi hsane' rfl rfl hempty rfl ha
  | record hs ha => exact h.record hi hs ha
  | reject hs ha => exact h.reject hi hs ha
  | commit hs => exact h.commit hi hs

/-- A call may arrive at any time. -/
theorem arrive (h : Agrees es s cs) (hc : c.Sane) (hhand : c.hand = .empty) :
    Agrees es s (cs ++ [c]) where
  records := h.records
  agreement := by
    have heq : handsOf (cs ++ [c]) = handsOf cs := by
      funext j
      unfold handsOf
      rcases Nat.lt_trichotomy j cs.length with hj | rfl | hj
      · rw [List.getElem?_append_left hj]
      · rw [List.getElem?_concat_length, List.getElem?_eq_none (Nat.le_refl _)]
        exact hhand
      · rw [List.getElem?_eq_none (by rw [List.length_append]; exact hj),
          List.getElem?_eq_none (Nat.le_of_lt hj)]
    rw [heq]
    exact h.agreement
  sane d hd := by
    rcases List.mem_append.mp hd with hd | hd
    · exact h.sane d hd
    · rw [List.mem_singleton.mp hd]
      exact hc

/-- Calls without an event to commit may be left alone. -/
theorem leave (h : Agrees es s cs) (hc : ∀ c ∈ cs, ∀ p, c.hand ≠ .pending p) :
    Agrees es s [] where
  records := h.records
  agreement := by
    refine h.agreement.rest fun i p hi => ?_
    obtain ⟨c, hmem, hp⟩ := exists_of_handsOf hi (by simp)
    exact hc c hmem p hp
  sane _ hd := by cases hd

/-- Locks, feed, settings and draws may change in any way. -/
theorem elsewhere (h : Agrees es s cs) (hlog : s'.log = s.log) (hlive : s'.live = s.live) :
    Agrees es s' cs := by
  refine ⟨?_, ?_, h.sane⟩
  · rw [hlog]
    exact h.records
  · rw [hlive]
    exact h.agreement

end Agrees

end CatalogChain
