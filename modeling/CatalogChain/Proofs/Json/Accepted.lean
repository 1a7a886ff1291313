import CatalogChain.Proofs.Json.Values
import CatalogChain.Proofs.Product.Bounds

/-!
# What a reader has accepted

If a record is read from an outline, every field has been read from a part of that outline, or has
its default, or is missing (`readRecord_eq_ok` with `field_eq_ok`, `fieldOr_eq_ok` and
`field?_eq_ok`); it does not matter whether the fields were given by name or by place.  So what is
known of the parts of an outline carries over to what is read from them.
-/

namespace CatalogChain

/-! ## Records -/

theorem Entries.mem_of_get? {α : Type} {k : String} {v : α} {es : List (String × α)}
    (h : get? k es = some v) : (k, v) ∈ es := by
  induction es with
  | nil => cases h
  | cons e es ih =>
    unfold get? at h
    split_ifs at h with he
    · cases h
      subst he
      exact List.mem_cons_self
    · exact List.mem_cons_of_mem e (ih h)

namespace Record

/-- **A record from an outline**: all its fields are parts of it. -/
def From (o : Outline) (r : Record) : Prop := ∀ e ∈ r.entries, e.2.2 ∈ o.parts

theorem mem_parts_of_get? {o : Outline} {r : Record} (h : r.From o) {name : String}
    {place : Nat × Outline} (hp : Entries.get? name r.entries = some place) :
    place.2 ∈ o.parts :=
  h _ (Entries.mem_of_get? hp)

theorem mem_entries_ofMembers {names : List String} {closed : Bool} {i : Nat}
    {found : List (String × Nat × Outline)} {ms : List (Option String × Outline)}
    {e : String × Nat × Outline} (h : e ∈ (ofMembers names closed i found ms).entries) :
    e ∈ found ∨ e.2.2 ∈ ms.map Prod.snd := by
  induction ms generalizing i found with
  | nil => exact .inl h
  | cons m ms ih =>
    unfold ofMembers at h
    simp only at h
    split at h
    · exact .inl h
    · split_ifs at h
      · exact .inl h
      · rcases ih h with h | h
        · rcases List.mem_append.mp h with h | h
          · exact .inl h
          · rw [List.mem_singleton.mp h]
            exact .inr List.mem_cons_self
        · exact .inr (List.mem_cons_of_mem _ h)
      · exact (ih h).imp_right (List.mem_cons_of_mem _)
      · exact .inl h

theorem from_ofOutline {names : List String} {o : Outline} {r : Record}
    (h : ofOutline names o = .ok r) : r.From o := by
  intro e he
  cases o with
  | object members closed =>
    cases h
    exact (mem_entries_ofMembers he).resolve_left (by simp)
  | array items closed =>
    cases h
    obtain ⟨i, hi, rfl⟩ := List.mem_mapIdx.mp he
    exact (List.of_mem_zip (List.getElem_mem hi)).2
  | _ => cases h

end Record

theorem readRecord_eq_ok {α : Type} {names : List String} {fields : Fields α} {o : Outline} {a : α}
    (h : readRecord names fields o = .ok a) : ∃ r : Record, r.From o ∧ fields r = .ok a := by
  unfold readRecord at h
  split at h
  · cases h
  · next r hr =>
    refine ⟨r, Record.from_ofOutline hr, ?_⟩
    split at h
    · next heq _ =>
      cases h
      exact heq
    all_goals cases h

/-! ## Fields -/

section Fields
variable {α β : Type} {r : Record} {o : Outline} {name : String} {a : α}
  {read : Outline → Reading α}

theorem Fields.of_map_eq_ok {f : α → β} {x : Fields α} {b : β} (h : (f <$> x) r = .ok b) :
    ∃ a, b = f a ∧ x r = .ok a := by
  simp only [Functor.map] at h
  cases hx : x r with
  | error e =>
    rw [hx] at h
    cases h
  | ok a =>
    rw [hx] at h
    cases h
    exact ⟨a, rfl, rfl⟩

theorem Fields.of_seq_eq_ok {f : Fields (α → β)} {x : Fields α} {b : β}
    (h : (f <*> x) r = .ok b) : ∃ g a, b = g a ∧ f r = .ok g ∧ x r = .ok a := by
  simp only [Seq.seq] at h
  split at h
  · next g a hg ha =>
    cases h
    exact ⟨g, a, rfl, hg, ha⟩
  all_goals cases h

theorem Fields.of_at'_eq_ok {place : Nat × Outline} (h : Fields.at' read place = .ok a) :
    read place.2 = .ok a := by
  unfold Fields.at' at h
  split at h
  · next heq =>
    cases h
    exact heq
  · cases h

theorem field_eq_ok (hr : r.From o) (h : field name read r = .ok a) :
    ∃ p ∈ o.parts, read p = .ok a := by
  unfold field at h
  split at h
  · next place hp => exact ⟨_, Record.mem_parts_of_get? hr hp, Fields.of_at'_eq_ok h⟩
  · cases h

theorem fieldOr_eq_ok {default : α} (hr : r.From o) (h : fieldOr name default read r = .ok a) :
    a = default ∨ ∃ p ∈ o.parts, read p = .ok a := by
  unfold fieldOr at h
  split at h
  · next place hp => exact .inr ⟨_, Record.mem_parts_of_get? hr hp, Fields.of_at'_eq_ok h⟩
  · cases h
    exact .inl rfl

/-- A field that may be missing is never read from `null`. -/
theorem field?_eq_ok {x : Option α} (hr : r.From o) (h : field? name read r = .ok x) :
    x = none ∨ ∃ p ∈ o.parts, p ≠ .null ∧ ∃ a, x = some a ∧ read p = .ok a := by
  unfold field? at h
  split at h
  · cases h
    exact .inl rfl
  · next place hnull hp =>
    have hread := Fields.of_at'_eq_ok h
    cases ha : read place.2 with
    | error e =>
      rw [ha] at hread
      cases hread
    | ok a =>
      rw [ha] at hread
      cases hread
      refine .inr ⟨_, Record.mem_parts_of_get? hr hp, fun heq => ?_, a, rfl, ha⟩
      exact hnull place.1 (Prod.ext rfl heq)
  · split_ifs at h
    cases h
    exact .inl rfl

end Fields

/-! ## Lists and integers -/

namespace Outline

theorem readAll_eq_ok {α : Type} {read : Outline → Reading α} {os : List Outline} {as : List α}
    (h : readAll read os = .ok as) : ∀ a ∈ as, ∃ p ∈ os, read p = .ok a := by
  induction os generalizing as with
  | nil =>
    cases h
    simp
  | cons o os ih =>
    unfold readAll at h
    split at h
    · cases h
    · next a ha =>
      split at h
      · cases h
      · next as has =>
        cases h
        intro x hx
        rcases List.mem_cons.mp hx with rfl | hx
        · exact ⟨o, List.mem_cons_self, ha⟩
        · obtain ⟨p, hp, hread⟩ := ih has x hx
          exact ⟨p, List.mem_cons_of_mem o hp, hread⟩

theorem readList_eq_ok {α : Type} {read : Outline → Reading α} {o : Outline} {as : List α}
    (h : readList read o = .ok as) : ∀ a ∈ as, ∃ p ∈ o.parts, read p = .ok a := by
  cases o with
  | array items closed =>
    simp only [readList] at h
    split at h
    · cases h
    · next as has =>
      split_ifs at h
      cases h
      exact readAll_eq_ok has
  | _ => cases h

theorem readIntBetween_eq_ok {low high n : Int} {o : Outline}
    (h : readIntBetween low high o = .ok n) : low ≤ n ∧ n < high := by
  unfold readIntBetween at h
  split at h
  · split_ifs at h with hrange
    cases h
    exact hrange
  · cases h

theorem isInt64_of_readInt64 {n : Int} {o : Outline} (h : readInt64 o = .ok n) : IsInt64 n :=
  readIntBetween_eq_ok h

theorem isLength_of_readNat64 {n : Nat} {o : Outline} (h : readNat64 o = .ok n) : IsLength n := by
  cases hm : readIntBetween 0 (twoTo 64) o with
  | error e =>
    rw [readNat64, hm] at h
    cases h
  | ok m =>
    rw [readNat64, hm] at h
    cases h
    obtain ⟨h0, h64⟩ := readIntBetween_eq_ok hm
    unfold IsLength
    omega

end Outline

end CatalogChain
