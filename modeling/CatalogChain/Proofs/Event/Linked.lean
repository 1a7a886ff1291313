import CatalogChain.Proofs.Event.Life

/-!
# Linked lists of events

The check of a chain accepts exactly the linked lists (`Chain.check_eq_ok_iff`).  The versions of
such a list count up from the first one (`Linked.version_getElem`), so no version comes twice and
the list is the only one in which its events are linked (`Linked.eq_of_perm`).

Behind an initial part that is linked the check goes on from the last event of that part
(`Chain.check_append`), so where it stops is read off the first pair of neighbours that do not fit.
-/

namespace CatalogChain.Chain

/-! ## What is accepted -/

theorem linked_cons_iff {e : Event} {es : List Event} :
    Linked (e :: es) ↔ Anchored e ∧ (e :: es).IsChain (Follows e.entityId) := by
  rw [List.isChain_iff_getElem]
  constructor
  · intro h
    exact ⟨h.anchored (Nat.succ_pos _), h.follows⟩
  · rintro ⟨hanchored, hfollows⟩
    exact ⟨fun _ => hanchored, hfollows⟩

theorem check_cons_of_anchored {e : Event} (h : Anchored e) (es : List Event) :
    check (e :: es) = checkFrom e.entityId e es := by
  refine if_neg ?_
  rintro ⟨hcreation, hprevious⟩
  exact h.elim hcreation fun hne => hne hprevious

theorem check_cons_of_not_anchored {e : Event} (h : ¬ Anchored e) (es : List Event) :
    check (e :: es) = breakAt e none .unanchored := by
  obtain ⟨hcreation, hprevious⟩ := not_or.mp h
  exact if_pos ⟨hcreation, not_not.mp hprevious⟩

/-- **The check accepts exactly the linked lists.** -/
theorem check_eq_ok_iff {es : List Event} : check es = .ok () ↔ Linked es := by
  cases es with
  | nil =>
    refine ⟨fun _ => ⟨fun h => absurd h (Nat.lt_irrefl 0), fun i h => ?_⟩, fun _ => rfl⟩
    exact absurd h (Nat.not_lt_zero _)
  | cons e es =>
    rw [linked_cons_iff, ← checkFrom_eq_ok_iff]
    by_cases hanchored : Anchored e
    · rw [check_cons_of_anchored hanchored]
      exact ⟨fun hok => ⟨hanchored, hok⟩, And.right⟩
    · rw [check_cons_of_not_anchored hanchored]
      refine ⟨fun hok => ?_, fun hok => absurd hok.1 hanchored⟩
      cases hok

/-- **The check rejects a list.** -/
def Rejects (es : List Event) : Prop := ∃ b, check es = .error b

theorem rejects_iff {es : List Event} : Rejects es ↔ ¬ Linked es := by
  rw [← check_eq_ok_iff, Rejects]
  cases check es with
  | ok => simp
  | error b => simp

/-! ## What a linked list is like -/

namespace Linked

variable {es fs : List Event} (h : Linked es)
include h

theorem entity_getElem {i : Nat} (hi : i < es.length) : es[i].entityId = es[0].entityId := by
  cases i with
  | zero => rfl
  | succ i => exact (h.follows i hi).entity

/-- **Versions count up** from the first one. -/
theorem version_getElem {i : Nat} (hi : i < es.length) : es[i].version = es[0].version + i := by
  induction i with
  | zero => exact (Int.add_zero _).symm
  | succ i ih =>
    rw [(h.follows i hi).version, ih (Nat.lt_of_succ_lt hi)]
    omega

theorem ascending : es.Pairwise fun a b => a.version < b.version := by
  rw [List.pairwise_iff_getElem]
  intro i j hi hj hij
  rw [h.version_getElem hi, h.version_getElem hj]
  omega

/-- No version comes twice. -/
theorem nodup : es.Nodup := h.ascending.imp fun {a b} hab heq => by
  rw [heq] at hab
  exact Int.lt_irrefl _ hab

theorem index_eq {i j : Nat} (hi : i < es.length) (hj : j < es.length)
    (hv : es[i].version = es[j].version) : i = j := by
  rw [h.version_getElem hi, h.version_getElem hj] at hv
  omega

/-- **The events of a linked list are linked in one order only.** -/
theorem eq_of_perm (hfs : Linked fs) (hperm : fs.Perm es) : fs = es := by
  refine hperm.eq_of_pairwise (fun a b _ _ hab hba => ?_) hfs.ascending h.ascending
  have hab : a.version < b.version := hab
  have hba : b.version < a.version := hba
  omega

omit h in
theorem left {xs ys : List Event} (h : Linked (xs ++ ys)) : Linked xs := by
  cases xs with
  | nil => exact check_eq_ok_iff.mp rfl
  | cons e xs =>
    rw [List.cons_append, linked_cons_iff, ← List.cons_append] at h
    exact linked_cons_iff.mpr ⟨h.1, (List.isChain_append.mp h.2).1⟩

end Linked

/-! ## Where the check stops -/

theorem checkFrom_append {id : String} {b : Event} {xs : List Event}
    (h : checkFrom id b xs = .ok ()) (ys : List Event) :
    checkFrom id b (xs ++ ys) = checkFrom id ((b :: xs).getLast (List.cons_ne_nil b xs)) ys := by
  induction xs generalizing b with
  | nil => rfl
  | cons x xs ih =>
    have hchain := List.isChain_cons_cons.mp (checkFrom_eq_ok_iff.mp h)
    have hfollows := hchain.1
    rw [List.cons_append, checkFrom, if_neg (not_not.mpr hfollows.entity),
      if_neg (not_not.mpr hfollows.version), if_neg (not_not.mpr hfollows.link),
      ih (checkFrom_eq_ok_iff.mpr hchain.2), List.getLast_cons (List.cons_ne_nil x xs)]

/-- **Behind a linked part the check goes on from its last event.** -/
theorem check_append {xs : List Event} {a : Event} (h : Linked (xs ++ [a])) (ys : List Event) :
    check (xs ++ a :: ys) = checkFrom a.entityId a ys := by
  cases xs with
  | nil => exact check_cons_of_anchored (linked_cons_iff.mp h).1 ys
  | cons e xs =>
    have hentity : a.entityId = e.entityId := by
      have hlast := h.entity_getElem (i := (e :: xs).length) (by simp)
      simpa using hlast
    rw [List.cons_append] at h
    obtain ⟨hanchored, hchain⟩ := linked_cons_iff.mp h
    rw [List.cons_append, check_cons_of_anchored hanchored, List.append_cons,
      checkFrom_append (checkFrom_eq_ok_iff.mpr hchain), hentity]
    simp

end CatalogChain.Chain
