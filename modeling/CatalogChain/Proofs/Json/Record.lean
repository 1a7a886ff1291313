import CatalogChain.Json.Record
import Mathlib.Data.List.Nodup

/-!
# Reading values that are given

What is read from a value and not from a text has no fault of its own: all members of an object are
there, each with its name (`Record.given`).  So a record reads back from an object whose members
have declared names, each once (`readRecord_object`), as soon as its fields do (`field_given`,
`Fields.seq_eq_ok`), and a list reads back entry by entry (`Outline.readList_list`).  A sorted table
reads back because its entries come in the order in which they are kept.
-/

namespace CatalogChain

/-! ## Records -/

namespace Record

/-- The members of an object with their places, from place `i` on. -/
def placed (i : Nat) : List (String × Json) → List (String × Nat × Outline)
  | [] => []
  | m :: ms => (m.1, i, .ofJson m.2) :: placed (i + 1) ms

/-- **The record of an object that is given.** -/
def given (ms : List (String × Json)) : Record where
  entries := placed 0 ms
  positional := false
  size := ms.length
  fault := none

theorem get?_placed_append {found : List (String × Nat × Outline)} {k : String}
    (h : Entries.get? k found = none) (place : Nat × Outline) (k' : String) :
    Entries.get? k' (found ++ [(k, place)]) =
      if k = k' then some place else Entries.get? k' found := by
  induction found with
  | nil => rfl
  | cons e es ih =>
    unfold Entries.get? at h
    split_ifs at h with he
    have ih := ih h
    rw [List.cons_append]
    unfold Entries.get?
    grind

theorem ofMembers_given {names : List String} {ms : List (String × Json)}
    {found : List (String × Nat × Outline)} {i : Nat} (hnames : ∀ m ∈ ms, m.1 ∈ names)
    (hnodup : (Entries.keys ms).Nodup) (hfound : ∀ m ∈ ms, Entries.get? m.1 found = none) :
    ofMembers names true i found (Outline.ofMembers ms) =
      ⟨found ++ placed i ms, false, i + ms.length, none⟩ := by
  -- the members that are left have names that are not found yet
  induction ms generalizing i found with
  | nil => simp [Outline.ofMembers, ofMembers, placed]
  | cons m ms ih =>
    have hm : names.contains m.1 = true := by simpa using hnames m List.mem_cons_self
    have hnew := hfound m List.mem_cons_self
    obtain ⟨hout, hnodup⟩ := List.nodup_cons.mp hnodup
    have hrest : ∀ x ∈ ms, Entries.get? x.1 (found ++ [(m.1, i, Outline.ofJson m.2)]) = none := by
      intro x hx
      have hne : m.1 ≠ x.1 := by
        intro heq
        exact hout (heq ▸ List.mem_map_of_mem hx)
      rw [get?_placed_append hnew, if_neg hne]
      exact hfound x (List.mem_cons_of_mem m hx)
    have ih := ih (i := i + 1) (fun x hx => hnames x (List.mem_cons_of_mem m hx)) hnodup hrest
    rw [Outline.ofMembers, ofMembers]
    simp only [hm, if_true, hnew, Option.isSome_none, Bool.false_eq_true, if_false]
    rw [ih, placed, List.append_assoc, List.singleton_append, List.length_cons]
    congr 1
    omega

end Record

theorem get?_placed {ms : List (String × Json)} {k : String} {v : Json} {i : Nat}
    (h : Entries.get? k ms = some v) :
    ∃ place, Entries.get? k (Record.placed i ms) = some (place, .ofJson v) := by
  induction ms generalizing i with
  | nil => cases h
  | cons m ms ih =>
    unfold Record.placed
    unfold Entries.get? at h ⊢
    split_ifs at h ⊢ with hm
    · cases h
      exact ⟨i, rfl⟩
    · exact ih h

theorem get?_placed_eq_none {ms : List (String × Json)} {k : String} {i : Nat}
    (h : Entries.get? k ms = none) : Entries.get? k (Record.placed i ms) = none := by
  induction ms generalizing i with
  | nil => rfl
  | cons m ms ih =>
    unfold Record.placed
    unfold Entries.get? at h ⊢
    split_ifs at h ⊢
    exact ih h

theorem Outline.eq_null_of_ofJson {v : Json} (h : ofJson v = .null) : v = .null := by
  cases v with
  | null => rfl
  | _ => cases h

section Fields
variable {α β : Type} {r : Record} {ms : List (String × Json)} {name : String} {v : Json} {a : α}
  {read : Outline → Reading α}

theorem field_given (h : Entries.get? name ms = some v) (hv : read (.ofJson v) = .ok a) :
    field name read (.given ms) = .ok a := by
  obtain ⟨place, hp⟩ := get?_placed (i := 0) h
  unfold field
  rw [Record.given, hp]
  simp only [Fields.at', hv]

theorem fieldOr_given {default : α} (h : Entries.get? name ms = some v)
    (hv : read (.ofJson v) = .ok a) : fieldOr name default read (.given ms) = .ok a := by
  obtain ⟨place, hp⟩ := get?_placed (i := 0) h
  unfold fieldOr
  rw [Record.given, hp]
  simp only [Fields.at', hv]

/-- A field that may be missing is given if it is not `null`. -/
theorem field?_given (h : Entries.get? name ms = some v) (hnull : v ≠ .null)
    (hv : read (.ofJson v) = .ok a) : field? name read (.given ms) = .ok (some a) := by
  obtain ⟨place, hp⟩ := get?_placed (i := 0) h
  unfold field?
  rw [Record.given, hp]
  split
  · next heq =>
    have hplace := congrArg Prod.snd (Option.some.inj heq)
    exact absurd (Outline.eq_null_of_ofJson hplace) hnull
  · next heq =>
    cases heq
    simp only [Fields.at', hv]
    rfl
  · next heq => cases heq

theorem field?_missing (h : Entries.get? name ms = none) :
    field? name read (.given ms) = .ok none := by
  unfold field?
  rw [Record.given, get?_placed_eq_none h]
  rfl

/-- A field that is left out when its value is missing. -/
theorem field?_option (encode : β → Json) {x : Option β} {f : β → α}
    (h : Entries.get? name ms = x.map encode) (hnull : ∀ b ∈ x, encode b ≠ .null)
    (hv : ∀ b ∈ x, read (.ofJson (encode b)) = .ok (f b)) :
    field? name read (.given ms) = .ok (x.map f) := by
  cases x with
  | none => exact field?_missing h
  | some b => exact field?_given h (hnull b rfl) (hv b rfl)

theorem Fields.map_eq_ok {x : Fields α} (f : α → β) (hx : x r = .ok a) :
    (f <$> x) r = .ok (f a) := by
  simp only [Functor.map, hx]

theorem Fields.seq_eq_ok {f : Fields (α → β)} {x : Fields α} {g : α → β} (hf : f r = .ok g)
    (hx : x r = .ok a) : (f <*> x) r = .ok (g a) := by
  simp only [Seq.seq, hf, hx]

/-- **A record reads back** from an object of its fields. -/
theorem readRecord_object {names : List String} {fields : Fields α}
    (hnames : ∀ m ∈ ms, m.1 ∈ names) (hnodup : (Entries.keys ms).Nodup)
    (h : fields (.given ms) = .ok a) : readRecord names fields (.ofJson (.object ms)) = .ok a := by
  have hrecord : Record.ofOutline names (.ofJson (.object ms)) = .ok (.given ms) := by
    have hgiven : Record.ofMembers names true 0 [] (Outline.ofMembers ms) =
        ⟨[] ++ Record.placed 0 ms, false, 0 + ms.length, none⟩ :=
      Record.ofMembers_given hnames hnodup fun _ _ => rfl
    rw [List.nil_append, Nat.zero_add] at hgiven
    rw [Outline.ofJson, Record.ofOutline, hgiven, Record.given]
  unfold readRecord
  simp only [hrecord, h]
  rfl

end Fields

/-! ## Lists and tables -/

namespace Outline

variable {α β : Type}

theorem readText_string (s : String) : readText (.ofJson (.string s)) = .ok s := rfl

theorem readAll_ofJsons {read : Outline → Reading β} {encode : α → Json} {f : α → β} {as : List α}
    (h : ∀ a ∈ as, read (.ofJson (encode a)) = .ok (f a)) :
    readAll read (ofJsons (as.map encode)) = .ok (as.map f) := by
  induction as with
  | nil => rfl
  | cons a as ih =>
    have hrest := ih fun x hx => h x (List.mem_cons_of_mem a hx)
    rw [List.map_cons, ofJsons, readAll, h a List.mem_cons_self, hrest]
    rfl

/-- **A list reads back** if its entries do. -/
theorem readList_list {read : Outline → Reading β} {encode : α → Json} {f : α → β} {as : List α}
    (h : ∀ a ∈ as, read (.ofJson (encode a)) = .ok (f a)) :
    readList read (.ofJson (.list encode as)) = .ok (as.map f) := by
  rw [Json.list, ofJson, readList, readAll_ofJsons h]
  rfl

end Outline

theorem Entries.putSorted_of_lt {α : Type} {k : String} {es : List (String × α)}
    (h : ∀ x ∈ keys es, x < k) (v : α) : putSorted k v es = es ++ [(k, v)] := by
  induction es with
  | nil => rfl
  | cons e es ih =>
    have he : e.1 < k := h e.1 List.mem_cons_self
    have hrest := ih fun x hx => h x (List.mem_cons_of_mem e.1 hx)
    rw [putSorted, if_neg (String.lt_asymm he), if_neg (String.ne_of_lt he), hrest,
      List.cons_append]

/-- Entries behind all those of a table are put behind them one by one. -/
theorem Outline.readEntries_ofMembers {α : Type} {read : Outline → Reading α} {encode : α → Json}
    (hread : ∀ a, read (.ofJson (encode a)) = .ok a) {es : List (String × α)} {t : SortedTable α}
    (h : Entries.Sorted (t.entries ++ es)) :
    ∃ t', readEntries read t (ofMembers (es.map fun e => (e.1, encode e.2))) = .ok t' ∧
      t'.entries = t.entries ++ es := by
  induction es generalizing t with
  | nil => exact ⟨t, rfl, (List.append_nil _).symm⟩
  | cons e es ih =>
    have hput : (t.put e.1 e.2).entries = t.entries ++ [e] := by
      refine Entries.putSorted_of_lt (fun x hx => ?_) e.2
      rw [Entries.Sorted, Entries.keys, List.map_append, List.pairwise_append] at h
      exact h.2.2 x hx e.1 List.mem_cons_self
    obtain ⟨t', hread', hentries⟩ := ih (t := t.put e.1 e.2) (by
      rw [hput, List.append_assoc]
      exact h)
    refine ⟨t', ?_, ?_⟩
    · rw [List.map_cons, ofMembers, readEntries, hread]
      exact hread'
    · rw [hentries, hput, List.append_assoc]
      rfl

/-- **A sorted table reads back** from the object of its entries. -/
theorem Outline.readTable_object {α : Type} {read : Outline → Reading α} {encode : α → Json}
    (hread : ∀ a, read (.ofJson (encode a)) = .ok a) (t : SortedTable α) :
    readTable read (.ofJson (.object (t.entries.map fun e => (e.1, encode e.2)))) = .ok t := by
  have hsorted : Entries.Sorted (SortedTable.empty.entries ++ t.entries) := t.sorted
  obtain ⟨t', hread', hentries⟩ := readEntries_ofMembers hread hsorted
  have heq : t' = t := by
    cases t
    cases t'
    rw [SortedTable.mk.injEq]
    exact hentries
  rw [ofJson, readTable, hread', heq]
  rfl

end CatalogChain
