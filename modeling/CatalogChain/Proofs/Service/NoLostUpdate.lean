import CatalogChain.Proofs.Service.World

/-!
# No lost update

Two writers may have read the same version of a product, for nothing keeps a lock from being lost
while its owner is at work.  Their events would then stand at the same place, and the log takes only
one of them: `World.Accounted.rival` is the whole argument.  The other writer ends in a fault.

A commit may come late, but no other event of the product can be recorded meanwhile.  So it meets
the value that comes right before its own (`Fits`): it neither overwrites what is newer nor brings
back what is deleted.

`World.Orderly` puts together what holds in every world that can be reached.
-/

namespace CatalogChain

/-! ## Commits -/

/-- **A commit fits**: it is about the newest event of its product, the live table shows the value
before that event, and shows what the history tells after it. -/
structure Fits (s s' : Service) (e : Event) : Prop where
  newest : ∀ a ∈ s.log.history e.entityId, a ≠ e → a.version < e.version ∧ a.kind ≠ .deleted
  before : ∀ p, s.live.get? e.entityId = some p → p.version + 1 = e.version
  absent : s.live.get? e.entityId = none ↔ e.kind = .created
  shown : ∀ id, s'.live.get? id =
    if e.entityId = id then current (s.log.history id) else s.live.get? id

section Commit
variable {σ : Supply} {now : Nat} {cancelled : Bool} {es : List Event} {s s' : Service}
  {cs : List Call} {i : Nat} {c c' : Call}

theorem Call.Moves.live_eq (h : Call.Moves σ now cancelled s c s' c')
    (hs : ∀ lock e, c.stage ≠ .committing lock e) : s'.live = s.live := by
  cases h with
  | commit hc => exact absurd hc (hs _ _)
  | _ => rfl

theorem Call.live_step_of_committing {lock : Option Token} {e : Event}
    (hs : c.stage = .committing lock e) :
    (c.step σ now cancelled s).1.live = s.live.apply e := by
  unfold Call.step
  rw [hs]

/-- **Every commit fits.** -/
theorem Agrees.fits (h : Agrees es s cs) (hi : cs[i]? = some c) {e : Event}
    (hc : c.hand = .pending e) (hs : s'.live = s.live.apply e) : Fits s s' e := by
  obtain ⟨bs, hbs, hlive⟩ := h.agreement.pending i e ((handsOf_eq hi).trans hc)
  rw [← h.history_eq] at hbs
  have hlife := h.life_history e.entityId
  rw [hbs] at hlife
  have hleft := Life.left bs [e] hlife
  have hlast : (bs ++ [e]).getLast? = some e := List.getLast?_concat
  have hsound := hlife.sound e (List.mem_of_getLast? hlast)
  have hv := hlife.version_of_getLast? hlast
  rw [List.length_append, List.length_singleton] at hv
  -- every earlier event has a successor, so it is no deletion
  have hbefore : ∀ a ∈ bs, a.version < e.version ∧ a.kind ≠ .deleted := by
    intro a ha
    have hbounds := hleft.version_bounds ha
    have hlt : a.version < (bs ++ [e]).length := by
      rw [List.length_append, List.length_singleton]
      omega
    exact ⟨by omega, hlife.alive_of_lt (List.mem_append_left [e] ha) hlt⟩
  constructor
  case newest =>
    intro a ha hne
    rw [hbs] at ha
    rcases List.mem_append.mp ha with ha | ha
    · exact hbefore a ha
    · exact absurd (List.mem_singleton.mp ha) hne
  case before =>
    intro p hp
    rw [hlive] at hp
    obtain ⟨-, -, -, -, -, hpv⟩ := hleft.version_of_current hp
    omega
  case absent =>
    rw [hlive, current_eq_none_iff]
    constructor
    · rintro (rfl | ⟨a, hl, hk⟩)
      · exact (hlife.birth e rfl).1
      · exact absurd hk (hbefore a (List.mem_of_getLast? hl)).2
    · intro hk
      rcases hlife.begins_or_later (i := bs.length) (by simp) with ⟨h0, -⟩ | ⟨hl, -⟩
      · exact .inl (List.length_eq_zero_iff.mp h0)
      · rw [List.getElem_concat_length rfl] at hl
        exact absurd hk hl
  case shown =>
    intro id
    rw [hs, LiveTable.get?_apply _ (hsound.snapshot_id.trans hsound.entity.symm)]
    split_ifs with hid hk
    · rw [← hid, hbs, current_append, if_pos hk]
    · rw [← hid, hbs, current_append, if_neg hk]
    · rfl

end Commit

/-! ## Rivals -/

namespace World

/-- An action is the commit of an event to the live table. -/
def Commits (w : World) (action : Action) (e : Event) : Prop :=
  ∃ i now cancelled x lock, action = .advance i now cancelled ∧ w.writers[i]? = some x ∧
    x.call.stage = .committing lock e

/-- No writer stands between its append and its commit. -/
def AtRest (w : World) : Prop := ∀ x ∈ w.writers, ∀ lock e, x.call.stage ≠ .committing lock e

/-- **An orderly world.** -/
structure Orderly (σ : Supply) (w : World) : Prop where
  /-- The events of every product are in order. -/
  chronicle : ∀ id, Chronicle id (w.service.log.history id)
  /-- The log holds what the writers have recorded. -/
  author : ∀ e, e ∈ w.service.log.events ↔ ∃ i, w.Wrote i e
  /-- An event stems from what its writer has read; only a creation stems from nothing. -/
  source : ∀ i e, w.Wrote i e → e.kind ≠ .created →
    ∃ p, w.Read i p ∧ e.entityId = p.id ∧ e.version = p.version + 1 ∧ e.previous = p.fingerprint
  /-- Of the writers that read one version of a product, only one ever records an event.  The others
  can only end in a fault. -/
  winner : ∀ i j p q e, w.Read i p → w.Read j q → p.id = q.id → p.version = q.version →
    w.Wrote i e → j ≠ i → ∀ later, (∀ f, ¬ (w.run σ later).Wrote j f) ∧
      ∀ outcome, (w.run σ later).Ended j outcome → ∃ fault, outcome = .error fault
  /-- The live table is changed by commits only, and all of them fit. -/
  commit : ∀ action e, w.Commits action e → Fits w.service (w.act σ action).service e
  untouched : ∀ action, (∀ e, ¬ w.Commits action e) →
    (w.act σ action).service.live = w.service.live
  /-- If no commit is due, the live table shows every product as its last event leaves it. -/
  settled : w.AtRest → ∀ id, w.service.live.get? id = current (w.service.log.history id)

namespace Accounted

variable {σ : Supply} {old es : List Event} {w : World}

theorem stemsFrom (h : Accounted old es w) {i : Nat} {e : Event} {x : Writer}
    (hi : w.writers[i]? = some x) (he : e ∈ x.call.written) : e.StemsFrom x.seen :=
  (h.honest x (List.mem_of_getElem? hi)).stemsFrom he

/-- What a writer that has read a value records stands right behind that value. -/
theorem place_of_read (h : Accounted old es w) {i : Nat} {p : Product} {e : Event} (hr : w.Read i p)
    (hw : w.Wrote i e) : e ∈ old ++ es ∧ e.place = ⟨p.id, p.version + 1⟩ := by
  obtain ⟨x, hx, hp⟩ := hr
  obtain ⟨y, hy, he⟩ := hw
  cases hx.symm.trans hy
  have hstems := h.stemsFrom hx he
  rw [hp] at hstems
  obtain ⟨-, hid, hv, -⟩ := hstems
  exact ⟨List.mem_append_right old ((h.author e).mpr ⟨i, x, hx, he⟩), by rw [Event.place, hid, hv]⟩

/-- **Two writers that have read one version do not both record an event.** -/
theorem rival (h : Accounted old es w) {i j : Nat} {p q : Product} {e f : Event} (hp : w.Read i p)
    (hq : w.Read j q) (hid : p.id = q.id) (hv : p.version = q.version) (he : w.Wrote i e)
    (hf : w.Wrote j f) : j = i := by
  obtain ⟨hmem, hplace⟩ := h.place_of_read hp he
  obtain ⟨hmem', hplace'⟩ := h.place_of_read hq hf
  have hsame : e.place = f.place := by rw [hplace, hplace', hid, hv]
  rw [← h.agrees.records.eq_of_place_eq hmem hmem' hsame] at hf
  exact h.lone j i e hf he

/-- A writer that has not recorded anything has not succeeded. -/
theorem ended_error {i : Nat} (hw : ∀ e, ¬ w.Wrote i e) {outcome : Outcome}
    (ho : w.Ended i outcome) : ∃ fault, outcome = .error fault := by
  cases outcome with
  | error fault => exact ⟨fault, rfl⟩
  | ok e =>
    obtain ⟨x, hx, ho⟩ := ho
    unfold Call.outcome? at ho
    split at ho
    · next heq =>
      cases ho
      refine absurd ⟨x, hx, ?_⟩ (hw e)
      rw [Call.written, Call.hand, heq]
      exact List.mem_singleton_self e
    · cases ho

theorem fits (h : Accounted old es w) {action : Action} {e : Event} (hc : w.Commits action e) :
    Fits w.service (w.act σ action).service e := by
  obtain ⟨i, now, cancelled, x, lock, rfl, hi, hs⟩ := hc
  have hcall : w.calls[i]? = some x.call := by
    rw [calls, List.getElem?_map, hi]
    rfl
  rw [act_advance_of_some hi]
  exact h.agrees.fits hcall (by rw [Call.hand, hs]) (Call.live_step_of_committing hs)

theorem live_act {action : Action} (hc : ∀ e, ¬ w.Commits action e) :
    (w.act σ action).service.live = w.service.live := by
  cases action with
  | arrive request => rfl
  | disturb locks feed => rfl
  | advance i now cancelled =>
    cases hi : w.writers[i]? with
    | none => rw [act_advance_of_none hi]
    | some x =>
      rw [act_advance_of_some hi]
      refine (x.call.step_moves σ now cancelled w.service).live_eq fun lock e hs => ?_
      exact hc e ⟨i, now, cancelled, x, lock, rfl, hi, hs⟩

/-- A world of which an account can be given from the beginning is orderly. -/
theorem orderly (h : Accounted [] es w) : w.Orderly σ where
  chronicle id := (h.agrees.life_history id).chronicle
  author e := by
    rw [h.agrees.records.events]
    exact h.author e
  source i e := by
    rintro ⟨x, hx, he⟩ hk
    have hstems := h.stemsFrom hx he
    cases hseen : x.seen with
    | none =>
      rw [hseen] at hstems
      exact absurd hstems hk
    | some p =>
      rw [hseen] at hstems
      exact ⟨p, ⟨x, hx, hseen⟩, hstems.2⟩
  winner i j p q e hp hq hid hv he hji later := by
    obtain ⟨fs, hlater, hgrows⟩ := h.run (σ := σ) later
    have hnone : ∀ f, ¬ (w.run σ later).Wrote j f := fun f hf =>
      hji (hlater.rival (hgrows.read i p hp) (hgrows.read j q hq) hid hv (hgrows.wrote i e he) hf)
    exact ⟨hnone, fun outcome ho => ended_error hnone ho⟩
  commit _ _ hc := h.fits hc
  untouched _ hc := live_act hc
  settled hrest id := by
    refine h.agrees.get?_eq_current fun c hc p hp => ?_
    obtain ⟨x, hx, rfl⟩ := List.mem_map.mp hc
    obtain ⟨lock, hs⟩ := Call.hand_eq_pending_iff.mp hp
    exact absurd hs (hrest x hx lock p)

end Accounted

/-- **No update is lost**, whatever the writers do and in whatever order, and whatever happens to
their locks meanwhile. -/
theorem orderly_run (σ : Supply) (settings : WriteSettings) (feed : Feed)
    (actions : List Action) : (run σ (fresh settings feed) actions).Orderly σ := by
  obtain ⟨es, h, -⟩ := (accounted_nil (.fresh settings feed)).run (σ := σ) actions
  exact h.orderly

end World

end CatalogChain
