import CatalogChain.Proofs.Json.Accepted

/-!
# The order of members

Objects are maps, so two values are the same if they differ in the order of members only
(`Json.Same`).  Where no object has a name twice (`Json.Distinct`), putting the members in order
leaves the same value (`Json.same_sorted`).
-/

namespace CatalogChain.Json

/-! ## Names -/

mutual

/-- **No object of a value has a name twice.** -/
def Distinct : Json → Prop
  | .array items => DistinctItems items
  | .object members => (Entries.keys members).Nodup ∧ DistinctMembers members
  | _ => True

/-- No object of a list of values has a name twice. -/
def DistinctItems : List Json → Prop
  | [] => True
  | v :: vs => Distinct v ∧ DistinctItems vs

/-- No object among the values of members has a name twice. -/
def DistinctMembers : List (String × Json) → Prop
  | [] => True
  | m :: ms => Distinct m.2 ∧ DistinctMembers ms

end

theorem distinct_string (s : String) : (string s).Distinct := by
  simp [Distinct]

theorem distinct_int (n : Int) : (int n).Distinct := by
  simp [int, Distinct]

theorem distinct_object {ms : List (String × Json)} (hnodup : (Entries.keys ms).Nodup)
    (h : ∀ m ∈ ms, m.2.Distinct) : (object ms).Distinct := by
  rw [Distinct]
  refine ⟨hnodup, ?_⟩
  clear hnodup
  induction ms with
  | nil => trivial
  | cons m ms ih =>
    obtain ⟨hm, hms⟩ := List.forall_mem_cons.mp h
    exact ⟨hm, ih hms⟩

theorem distinct_list {α : Type} {encode : α → Json} {as : List α}
    (h : ∀ a ∈ as, (encode a).Distinct) : (list encode as).Distinct := by
  rw [list, Distinct]
  induction as with
  | nil => trivial
  | cons a as ih =>
    obtain ⟨ha, has⟩ := List.forall_mem_cons.mp h
    exact ⟨ha, ih has⟩

/-! ## Members in order -/

/-- **The same value** up to the order of members: under each name stand the same values, or
none. -/
inductive Same : Json → Json → Prop
  | refl (v : Json) : Same v v
  | array {vs ws : List Json} (h : List.Forall₂ Same vs ws) : Same (.array vs) (.array ws)
  | object {ms ns : List (String × Json)}
      (h : ∀ k, Option.Rel Same (Entries.get? k ms) (Entries.get? k ns)) :
      Same (.object ms) (.object ns)

theorem get?_putSorted {α : Type} (k : String) (v : α) (es : List (String × α)) (k' : String) :
    Entries.get? k' (Entries.putSorted k v es) = if k = k' then some v else Entries.get? k' es := by
  induction es with
  | nil => rfl
  | cons e es ih => grind [Entries.get?, Entries.putSorted]

theorem get?_sortedMembers {read ms : List (String × Json)} (h : (Entries.keys ms).Nodup)
    (k : String) : Entries.get? k (sortedMembers read ms) =
      ((Entries.get? k ms).map sorted).or (Entries.get? k read) := by
  induction ms generalizing read with
  | nil => rfl
  | cons m ms ih =>
    obtain ⟨hout, hnodup⟩ := List.nodup_cons.mp h
    rw [sortedMembers, ih hnodup, get?_putSorted, Entries.get?]
    split_ifs with hk
    · have hnone : Entries.get? k ms = none := Entries.get?_eq_none_of_not_mem (hk ▸ hout)
      rw [hnone]
      rfl
    · rfl

mutual

/-- **Putting members in order leaves the same value.** -/
theorem same_sorted : ∀ v : Json, v.Distinct → Same v v.sorted
  | .null, _ | .bool _, _ | .number _, _ | .string _, _ => by
    simp only [sorted]
    exact .refl _
  | .array items, h => by
    rw [Distinct] at h
    rw [sorted]
    exact .array (same_sortedItems items h)
  | .object members, h => by
    rw [Distinct] at h
    rw [sorted]
    refine .object fun k => ?_
    rw [get?_sortedMembers h.1, Entries.get?, Option.or_none]
    cases hk : Entries.get? k members with
    | none => exact .none
    | some v => exact .some (same_sortedMembers members h.2 _ (Entries.mem_of_get? hk))

theorem same_sortedItems : ∀ vs : List Json, DistinctItems vs →
    List.Forall₂ Same vs (sortedItems vs)
  | [], _ => .nil
  | v :: vs, h => .cons (same_sorted v h.1) (same_sortedItems vs h.2)

theorem same_sortedMembers : ∀ ms : List (String × Json), DistinctMembers ms →
    ∀ m ∈ ms, Same m.2 m.2.sorted
  | [], _ => by simp
  | m :: ms, h => List.forall_mem_cons.mpr ⟨same_sorted m.2 h.1, same_sortedMembers ms h.2⟩

end

end CatalogChain.Json
