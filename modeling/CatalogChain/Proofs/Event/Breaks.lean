import CatalogChain.Proofs.Event.Linked
import Mathlib.Data.Nat.Find

/-!
# Where a chain breaks

A list of events that is not linked has a first event up to which it is not.  The check reports that
event, with the version before it and with the first of the conditions that it does not meet
(`Chain.exists_breaksAt`): the first break is found at the end of the shortest part that is not
linked, and what stands behind it does not matter.

A list that is accepted can be cut short anywhere, and goes on with events that follow their
neighbours (`Chain.check_append_iff`).  `Chain.judged` is all of this.
-/

namespace CatalogChain.Chain

/-- **What is wrong with an event behind another one**: the first condition it does not meet. -/
inductive Mismatch (entityId : String) (before e : Event) : Cause → Prop
  | foreign (h : e.entityId ≠ entityId) :
      Mismatch entityId before e (.foreign e.entityId entityId)
  | gap (h : e.entityId = entityId) (hv : e.version ≠ before.version + 1) :
      Mismatch entityId before e (.gap (before.version + 1))
  | unlinked (h : e.entityId = entityId) (hv : e.version = before.version + 1)
      (hl : e.previous ≠ before.snapshot.fingerprint) :
      Mismatch entityId before e (.unlinked e.previous before.snapshot.fingerprint)

/-- **A list breaks at its i-th event**: every shorter part is accepted, the part that ends with
this event is not, and this is the event that is reported. -/
structure BreaksAt (es : List Event) (i : Nat) (b : Break) : Prop where
  inside : i < es.length
  accepted : ∀ j < i, check (es.take (j + 1)) = .ok ()
  rejected : check (es.take (i + 1)) = .error b
  entityId : b.entityId = es[i].entityId
  version : b.version = es[i].version
  previous : b.previous = if i = 0 then none else some es[i - 1].version
  cause : if i = 0 then b.cause = .unanchored
    else Mismatch es[0].entityId es[i - 1] es[i] b.cause

/-- **Of an event that does not follow** the check reports what is wrong, whatever comes behind. -/
theorem checkFrom_of_not_follows {id : String} {before e : Event} (h : ¬ Follows id before e) :
    ∃ cause, Mismatch id before e cause ∧
      ∀ es, checkFrom id before (e :: es) = breakAt e before.version cause := by
  by_cases hid : e.entityId = id
  · by_cases hv : e.version = before.version + 1
    · have hl : e.previous ≠ before.snapshot.fingerprint := fun hl => h ⟨hid, hv, hl⟩
      refine ⟨_, .unlinked hid hv hl, fun es => ?_⟩
      rw [checkFrom, if_neg (not_not.mpr hid), if_neg (not_not.mpr hv), if_pos hl]
    · refine ⟨_, .gap hid hv, fun es => ?_⟩
      rw [checkFrom, if_neg (not_not.mpr hid), if_pos hv]
  · refine ⟨_, .foreign hid, fun es => ?_⟩
    rw [checkFrom, if_pos hid]

theorem checkFrom_singleton_of_follows {id : String} {before e : Event}
    (h : Follows id before e) : checkFrom id before [e] = .ok () := by
  rw [checkFrom, if_neg (not_not.mpr h.entity), if_neg (not_not.mpr h.version),
    if_neg (not_not.mpr h.link)]
  rfl

/-- A list that is not linked has a shortest part that is not. -/
theorem exists_shortest {es : List Event} (h : ¬ Linked es) :
    ∃ i, i < es.length ∧ Linked (es.take i) ∧ ¬ Linked (es.take (i + 1)) := by
  classical
  have hex : ∃ n, ¬ Linked (es.take n) := ⟨es.length, by rwa [List.take_length]⟩
  have hfind := Nat.find_spec hex
  have hpos : Nat.find hex ≠ 0 := by
    intro h0
    rw [h0, List.take_zero] at hfind
    exact hfind (check_eq_ok_iff.mp rfl)
  obtain ⟨i, hi⟩ := Nat.exists_eq_succ_of_ne_zero hpos
  have hle : Nat.find hex ≤ es.length := Nat.find_min' hex (by rwa [List.take_length])
  refine ⟨i, by omega, not_not.mp (Nat.find_min hex (by omega)), ?_⟩
  rwa [← Nat.succ_eq_add_one, ← hi]

/-- All shorter parts of a part that is linked are accepted. -/
theorem check_take_of_linked {es : List Event} {i : Nat} (h : Linked (es.take i)) :
    ∀ j < i, check (es.take (j + 1)) = .ok () := by
  intro j hj
  have hshorter : es.take (j + 1) = (es.take i).take (j + 1) := by
    rw [List.take_take, Nat.min_eq_left hj]
  rw [← List.take_append_drop (j + 1) (es.take i)] at h
  rw [hshorter]
  exact check_eq_ok_iff.mpr h.left

/-- Behind a part that is linked the check goes on from its last event. -/
theorem check_behind {es : List Event} {k : Nat} (hpos : 0 < es.length) (hk : k < es.length)
    (h : Linked (es.take (k + 1))) (ys : List Event) :
    check (es.take k ++ es[k] :: ys) = checkFrom es[0].entityId es[k] ys := by
  have hpart : Linked (es.take k ++ [es[k]]) := by rwa [← List.take_succ_eq_append_getElem hk]
  have hentity : es[k].entityId = es[0].entityId := by
    have hat := h.entity_getElem (i := k) (by rw [List.length_take]; omega)
    rwa [List.getElem_take, List.getElem_take] at hat
  rw [check_append hpart, hentity]

/-- **An event that does not follow the part before it** is the break. -/
theorem breaksAt_of_not_follows {es : List Event} {k : Nat} {b : Break} (hpos : 0 < es.length)
    (hk : k < es.length) (hi : k + 1 < es.length) (hlinked : Linked (es.take (k + 1)))
    (hnot : ¬ Follows es[0].entityId es[k] es[k + 1]) (h : check es = .error b) :
    BreaksAt es (k + 1) b := by
  have hshort : es.take (k + 1 + 1) = es.take k ++ es[k] :: [es[k + 1]] := by
    rw [List.take_succ_eq_append_getElem hi, List.take_succ_eq_append_getElem hk,
      List.append_assoc]
    rfl
  have hwhole : es = es.take k ++ es[k] :: es[k + 1] :: es.drop (k + 2) := by
    rw [← List.drop_eq_getElem_cons hi, ← List.drop_eq_getElem_cons hk, List.take_append_drop]
  obtain ⟨cause, hmismatch, hreport⟩ := checkFrom_of_not_follows hnot
  rw [hwhole, check_behind hpos hk hlinked, hreport] at h
  cases h
  refine ⟨hi, check_take_of_linked hlinked, ?_, rfl, rfl, rfl, hmismatch⟩
  rw [hshort, check_behind hpos hk hlinked, hreport]
  rfl

/-- **The check reports the first break.** -/
theorem exists_breaksAt {es : List Event} {b : Break} (h : check es = .error b) :
    ∃ i, BreaksAt es i b := by
  obtain ⟨i, hi, hlinked, hnot⟩ := exists_shortest (rejects_iff.mp ⟨b, h⟩)
  refine ⟨i, ?_⟩
  cases i with
  | zero =>
    -- the first event cannot begin a chain
    obtain ⟨e, es, rfl⟩ := List.exists_cons_of_length_pos hi
    have hanchored : ¬ Anchored e := fun hanchored =>
      hnot (linked_cons_iff.mpr ⟨hanchored, List.isChain_singleton e⟩)
    rw [check_cons_of_not_anchored hanchored] at h
    cases h
    exact ⟨hi, check_take_of_linked hlinked, check_cons_of_not_anchored hanchored [], rfl, rfl, rfl,
      rfl⟩
  | succ k =>
    have hpos : 0 < es.length := Nat.zero_lt_of_lt hi
    have hk : k < es.length := Nat.lt_of_succ_lt hi
    refine breaksAt_of_not_follows hpos hk hi hlinked (fun hfollows => hnot ?_) h
    rw [← check_eq_ok_iff, List.take_succ_eq_append_getElem hi,
      List.take_succ_eq_append_getElem hk, List.append_assoc]
    exact (check_behind hpos hk hlinked [es[k + 1]]).trans (checkFrom_singleton_of_follows hfollows)

/-- **A list that is accepted goes on** with events that follow their neighbours, and with no
others. -/
theorem check_append_iff {xs ys : List Event} (hxs : xs ≠ []) :
    check (xs ++ ys) = .ok () ↔ check xs = .ok () ∧
      ∀ i, xs.length ≤ i → (h : i < (xs ++ ys).length) →
        Follows (xs ++ ys)[0].entityId (xs ++ ys)[i - 1] (xs ++ ys)[i] := by
  have hpos : 0 < xs.length := List.length_pos_iff.mpr hxs
  rw [check_eq_ok_iff, check_eq_ok_iff]
  constructor
  · intro h
    refine ⟨h.left, fun i hle hi => ?_⟩
    obtain ⟨j, rfl⟩ := Nat.exists_eq_succ_of_ne_zero (Nat.ne_of_gt (Nat.lt_of_lt_of_le hpos hle))
    exact h.follows j hi
  · rintro ⟨h, hfollows⟩
    refine ⟨fun _ => ?_, fun i hi => ?_⟩
    · rw [List.getElem_append_left hpos]
      exact h.anchored hpos
    · rcases Nat.lt_or_ge (i + 1) xs.length with hlt | hge
      · rw [List.getElem_append_left hpos, List.getElem_append_left hlt,
          List.getElem_append_left (Nat.lt_of_succ_lt hlt)]
        exact h.follows i hlt
      · exact hfollows (i + 1) hge hi

/-- **How a list of events is judged.** -/
structure Judged (es : List Event) : Prop where
  /-- It is accepted if it is linked, and only then. -/
  accepts : check es = .ok () ↔ Linked es
  /-- Otherwise its first break is reported. -/
  first : ∀ b, check es = .error b → ∃ i, BreaksAt es i b
  /-- What is accepted can be cut short. -/
  initial : check es = .ok () → ∀ n, check (es.take n) = .ok ()
  /-- What is accepted goes on with events that follow their neighbours. -/
  extended : ∀ ys, es ≠ [] → ys ≠ [] →
    (check (es ++ ys) = .ok () ↔ check es = .ok () ∧
      ∀ i, es.length ≤ i → (h : i < (es ++ ys).length) →
        Follows (es ++ ys)[0].entityId (es ++ ys)[i - 1] (es ++ ys)[i])

/-- **The check accepts exactly the linked lists and reports the first break of all others.** -/
theorem judged (es : List Event) : Judged es where
  accepts := check_eq_ok_iff
  first _ h := exists_breaksAt h
  initial h n := by
    rw [check_eq_ok_iff, ← List.take_append_drop n es] at h
    exact check_eq_ok_iff.mpr h.left
  extended _ hes _ := check_append_iff hes

end CatalogChain.Chain
