import CatalogChain.Proofs.Json.Record

/-!
# Values from outlines

What `Outline.toJson` makes of an outline is more than some value: its objects have their members
in the order of their names (`Json.sorted` changes nothing), it is nested no deeper than was asked
for, and every number in it stands in the outline (`Outline.toJson_taken`).  Conversely a value is
taken from its own outline as it is, but with its members in order (`Outline.toJson_ofJson`).

A value that can be taken with some depth is the same with every greater one
(`Outline.toJson_mono`), so the parts of an outline of which a value can be taken
(`Outline.Fits`) have values of less depth.
-/

namespace CatalogChain

/-! ## Measures of a value -/

namespace Json

mutual

/-- **The numbers in a value.** -/
def numbers : Json → List Number
  | .number n => [n]
  | .array items => itemNumbers items
  | .object members => memberNumbers members
  | _ => []

/-- The numbers in a list of values. -/
def itemNumbers : List Json → List Number
  | [] => []
  | v :: vs => numbers v ++ itemNumbers vs

/-- The numbers in the members of an object. -/
def memberNumbers : List (String × Json) → List Number
  | [] => []
  | m :: ms => numbers m.2 ++ memberNumbers ms

end

mutual

/-- **The depth of nesting** of a value; a scalar has none. -/
def depth : Json → Nat
  | .array items => itemDepth items + 1
  | .object members => memberDepth members + 1
  | _ => 0

/-- The greatest depth of a list of values. -/
def itemDepth : List Json → Nat
  | [] => 0
  | v :: vs => max (depth v) (itemDepth vs)

/-- The greatest depth of the members of an object. -/
def memberDepth : List (String × Json) → Nat
  | [] => 0
  | m :: ms => max (depth m.2) (memberDepth ms)

end

mutual

/-- **A value with the members of every object in the order of their names**; of members of one
name the last stays.  Objects are maps, and this is how a map is kept. -/
def sorted : Json → Json
  | .array items => .array (sortedItems items)
  | .object members => .object (sortedMembers [] members)
  | v => v

/-- A list of values, each with its members in order. -/
def sortedItems : List Json → List Json
  | [] => []
  | v :: vs => sorted v :: sortedItems vs

/-- Members in the order of their names, added to those that are in order. -/
def sortedMembers (read : List (String × Json)) : List (String × Json) → List (String × Json)
  | [] => read
  | m :: ms => sortedMembers (Entries.putSorted m.1 (sorted m.2) read) ms

end

theorem mem_itemNumbers {n : Number} {vs : List Json} :
    n ∈ itemNumbers vs ↔ ∃ v ∈ vs, n ∈ v.numbers := by
  induction vs with
  | nil => simp [itemNumbers]
  | cons v vs ih => simp [itemNumbers, ih]

theorem mem_memberNumbers {n : Number} {ms : List (String × Json)} :
    n ∈ memberNumbers ms ↔ ∃ m ∈ ms, n ∈ m.2.numbers := by
  induction ms with
  | nil => simp [memberNumbers]
  | cons m ms ih => rw [memberNumbers, List.mem_append, ih, List.exists_mem_cons_iff]

theorem itemDepth_le_iff {vs : List Json} {d : Nat} :
    itemDepth vs ≤ d ↔ ∀ v ∈ vs, v.depth ≤ d := by
  induction vs with
  | nil => simp [itemDepth]
  | cons v vs ih => rw [itemDepth, Nat.max_le, ih, List.forall_mem_cons]

theorem memberDepth_le_iff {ms : List (String × Json)} {d : Nat} :
    memberDepth ms ≤ d ↔ ∀ m ∈ ms, m.2.depth ≤ d := by
  induction ms with
  | nil => simp [memberDepth]
  | cons m ms ih => rw [memberDepth, Nat.max_le, ih, List.forall_mem_cons]

theorem sortedItems_eq_self {vs : List Json} (h : ∀ v ∈ vs, v.sorted = v) :
    sortedItems vs = vs := by
  induction vs with
  | nil => rfl
  | cons v vs ih =>
    rw [sortedItems, h v List.mem_cons_self, ih fun x hx => h x (List.mem_cons_of_mem v hx)]

/-- Members that come in order behind others are added at the end. -/
theorem sortedMembers_eq_append (read : List (String × Json)) {ms : List (String × Json)}
    (h : ∀ m ∈ ms, m.2.sorted = m.2) (hsorted : Entries.Sorted (read ++ ms)) :
    sortedMembers read ms = read ++ ms := by
  induction ms generalizing read with
  | nil => rw [sortedMembers, List.append_nil]
  | cons m ms ih =>
    have hput : Entries.putSorted m.1 m.2 read = read ++ [m] := by
      refine Entries.putSorted_of_lt (fun x hx => ?_) m.2
      rw [Entries.Sorted, Entries.keys, List.map_append, List.pairwise_append] at hsorted
      exact hsorted.2.2 x hx m.1 List.mem_cons_self
    have hassoc : read ++ m :: ms = read ++ [m] ++ ms := by
      rw [List.append_assoc, List.singleton_append]
    rw [sortedMembers, h m List.mem_cons_self, hput, hassoc]
    exact ih _ (fun x hx => h x (List.mem_cons_of_mem m hx)) (hassoc ▸ hsorted)

end Json

/-! ## Measures of an outline -/

namespace Outline

mutual

/-- **The numbers in an outline** that have a value. -/
def numbers : Outline → List Number
  | number n => n.toList
  | array items _ => itemNumbers items
  | object members _ => memberNumbers members
  | _ => []

/-- The numbers in a list of outlines. -/
def itemNumbers : List Outline → List Number
  | [] => []
  | o :: os => numbers o ++ itemNumbers os

/-- The numbers in the members of an object. -/
def memberNumbers : List (Option String × Outline) → List Number
  | [] => []
  | m :: ms => numbers m.2 ++ memberNumbers ms

end

/-- **The parts of an outline**: the items of an array or the values of an object's members. -/
def parts : Outline → List Outline
  | array items _ => items
  | object members _ => members.map Prod.snd
  | _ => []

theorem numbers_subset_of_mem_parts {o p : Outline} (h : p ∈ o.parts) : p.numbers ⊆ o.numbers := by
  cases o with
  | array items closed =>
    simp only [parts] at h
    rw [numbers]
    induction items with
    | nil => cases h
    | cons i items ih =>
      rw [itemNumbers]
      rcases List.mem_cons.mp h with rfl | h
      · exact List.subset_append_left _ _
      · exact List.subset_append_of_subset_right _ (ih h)
  | object members closed =>
    simp only [parts] at h
    rw [numbers]
    induction members with
    | nil => cases h
    | cons m members ih =>
      rw [memberNumbers]
      rcases List.mem_cons.mp h with rfl | h
      · exact List.subset_append_left _ _
      · exact List.subset_append_of_subset_right _ (ih h)
  | _ => cases h

/-! ## Taking a value from its own outline -/

mutual

/-- **A value is taken from its own outline** with its members in order. -/
theorem toJson_ofJson {d : Nat} : ∀ v : Json, v.depth ≤ d → toJson d (ofJson v) = .ok v.sorted
  | .null, _ | .bool _, _ | .number _, _ | .string _, _ => by
    simp only [ofJson, toJson, Json.sorted]
  | .array items, h => by
    cases d with
    | zero => cases h
    | succ d =>
      have hitems := toJsons_ofJsons items (Nat.le_of_succ_le_succ h)
      simp only [ofJson, toJson, hitems, Json.sorted, if_true]
  | .object members, h => by
    cases d with
    | zero => cases h
    | succ d =>
      have hmembers := toMembers_ofMembers members [] (Nat.le_of_succ_le_succ h)
      simp only [ofJson, toJson, hmembers, Json.sorted, if_true]

theorem toJsons_ofJsons {d : Nat} : ∀ vs : List Json, Json.itemDepth vs ≤ d →
    toJsons d (ofJsons vs) = .ok (Json.sortedItems vs)
  | [], _ => rfl
  | v :: vs, h => by
    obtain ⟨hv, hvs⟩ := Nat.max_le.mp h
    simp only [ofJsons, toJsons, toJson_ofJson v hv, toJsons_ofJsons vs hvs, Json.sortedItems]

theorem toMembers_ofMembers {d : Nat} : ∀ (ms read : List (String × Json)),
    Json.memberDepth ms ≤ d → toMembers d read (ofMembers ms) = .ok (Json.sortedMembers read ms)
  | [], _, _ => rfl
  | m :: ms, read, h => by
    obtain ⟨hm, hms⟩ := Nat.max_le.mp h
    simp only [ofMembers, toMembers, toJson_ofJson m.2 hm, Json.sortedMembers,
      toMembers_ofMembers ms _ hms]

end

/-! ## What is taken from an outline -/

/-- **A value as it is taken from an outline**: bounded in depth, with its members in order and with
no other numbers than the given ones. -/
structure Taken (d : Nat) (ns : List Number) (v : Json) : Prop where
  depth : v.depth ≤ d
  sorted : v.sorted = v
  numbers : v.numbers ⊆ ns

theorem Taken.mono {d : Nat} {ms ns : List Number} {v : Json} (h : Taken d ms v) (hsub : ms ⊆ ns) :
    Taken d ns v :=
  ⟨h.depth, h.sorted, List.Subset.trans h.numbers hsub⟩

theorem taken_array {d : Nat} {ns : List Number} {vs : List Json} (h : ∀ v ∈ vs, Taken d ns v) :
    Taken (d + 1) ns (.array vs) where
  depth := Nat.succ_le_succ (Json.itemDepth_le_iff.mpr fun v hv => (h v hv).depth)
  sorted := by rw [Json.sorted, Json.sortedItems_eq_self fun v hv => (h v hv).sorted]
  numbers n hn := by
    obtain ⟨v, hv, hn⟩ := Json.mem_itemNumbers.mp hn
    exact (h v hv).numbers hn

theorem taken_object {d : Nat} {ns : List Number} {ms : List (String × Json)}
    (h : ∀ m ∈ ms, Taken d ns m.2) (hsorted : Entries.Sorted ms) :
    Taken (d + 1) ns (.object ms) where
  depth := Nat.succ_le_succ (Json.memberDepth_le_iff.mpr fun m hm => (h m hm).depth)
  sorted := by
    have hms := Json.sortedMembers_eq_append [] (fun m hm => (h m hm).sorted) hsorted
    rw [Json.sorted, hms, List.nil_append]
  numbers n hn := by
    obtain ⟨m, hm, hn⟩ := Json.mem_memberNumbers.mp hn
    exact (h m hm).numbers hn

theorem mem_putSorted {α : Type} {k : String} {v : α} {es : List (String × α)} {e : String × α}
    (h : e ∈ Entries.putSorted k v es) : e = (k, v) ∨ e ∈ es := by
  induction es with
  | nil => exact .inl (List.mem_singleton.mp h)
  | cons x es ih => grind [Entries.putSorted]

mutual

/-- **What is taken from an outline** is in order, within the depth, and has its numbers from
there. -/
theorem toJson_taken {d : Nat} : ∀ {o : Outline} {v : Json}, toJson d o = .ok v →
    Taken d o.numbers v
  | .broken, _, h | .number none, _, h | .string none, _, h => by
    simp only [toJson] at h
    cases h
  | .null, _, h | .bool _, _, h | .number (some _), _, h | .string (some _), _, h => by
    simp only [toJson] at h
    cases h
    exact ⟨Nat.zero_le _, rfl, List.Subset.refl _⟩
  | .array items closed, v, h => by
    cases d with
    | zero => cases h
    | succ d =>
      simp only [toJson] at h
      split at h
      · cases h
      · next vs hvs =>
        split_ifs at h
        cases h
        exact taken_array (toJsons_taken hvs)
  | .object members closed, v, h => by
    cases d with
    | zero => cases h
    | succ d =>
      simp only [toJson] at h
      split at h
      · cases h
      · next ms hms =>
        split_ifs at h
        cases h
        obtain ⟨hsorted, htaken⟩ := toMembers_taken hms List.Pairwise.nil (by simp)
          (List.Subset.refl _)
        exact taken_object htaken hsorted

theorem toJsons_taken {d : Nat} : ∀ {os : List Outline} {vs : List Json}, toJsons d os = .ok vs →
    ∀ v ∈ vs, Taken d (itemNumbers os) v
  | [], _, h => by
    cases h
    simp
  | o :: os, _, h => by
    simp only [toJsons] at h
    split at h
    · cases h
    · next v hv =>
      split at h
      · cases h
      · next vs hvs =>
        cases h
        rw [itemNumbers]
        intro x hx
        rcases List.mem_cons.mp hx with rfl | hx
        · exact (toJson_taken hv).mono (List.subset_append_left _ _)
        · exact (toJsons_taken hvs x hx).mono (List.subset_append_right _ _)

theorem toMembers_taken {d : Nat} {ns : List Number} : ∀ {ms : List (Option String × Outline)}
    {read rs : List (String × Json)}, toMembers d read ms = .ok rs → Entries.Sorted read →
    (∀ m ∈ read, Taken d ns m.2) → memberNumbers ms ⊆ ns →
    Entries.Sorted rs ∧ ∀ m ∈ rs, Taken d ns m.2
  | [], _, _, h, hsorted, hread, _ => by
    cases h
    exact ⟨hsorted, hread⟩
  | (none, _) :: _, _, _, h, _, _, _ => by
    simp only [toMembers] at h
    cases h
  | (some k, o) :: ms, read, _, h, hsorted, hread, hns => by
    rw [memberNumbers] at hns
    simp only [toMembers] at h
    split at h
    · cases h
    · next v hv =>
      refine toMembers_taken h (Entries.sorted_putSorted hsorted) (fun m hm => ?_)
        (List.Subset.trans (List.subset_append_right _ _) hns)
      rcases mem_putSorted hm with rfl | hm
      · exact (toJson_taken hv).mono (List.Subset.trans (List.subset_append_left _ _) hns)
      · exact hread m hm

end

/-- Nothing but `null` has the value `null`. -/
theorem eq_null_of_toJson {d : Nat} {o : Outline} (h : toJson d o = .ok .null) : o = .null := by
  cases o with
  | null => rfl
  | broken => cases h
  | bool b => cases h
  | number n => cases n <;> cases h
  | string s => cases s <;> cases h
  | array items closed =>
    cases d with
    | zero => cases h
    | succ d =>
      simp only [toJson] at h
      split at h
      · cases h
      · split_ifs at h
        cases h
  | object members closed =>
    cases d with
    | zero => cases h
    | succ d =>
      simp only [toJson] at h
      split at h
      · cases h
      · split_ifs at h
        cases h

/-! ## More depth than needed -/

mutual

/-- **More depth changes no value.** -/
theorem toJson_mono {d e : Nat} (hle : d ≤ e) : ∀ {o : Outline} {v : Json}, toJson d o = .ok v →
    toJson e o = .ok v
  | .broken, _, h | .number none, _, h | .string none, _, h => by
    simp only [toJson] at h
    cases h
  | .null, _, h | .bool _, _, h | .number (some _), _, h | .string (some _), _, h => by
    simpa only [toJson] using h
  | .array items closed, v, h => by
    cases d with
    | zero => cases h
    | succ d =>
      obtain ⟨e, rfl⟩ := Nat.exists_eq_add_of_lt hle
      simp only [toJson] at h ⊢
      split at h
      · cases h
      · next vs hvs => rw [toJsons_mono (by omega) hvs]; exact h
  | .object members closed, v, h => by
    cases d with
    | zero => cases h
    | succ d =>
      obtain ⟨e, rfl⟩ := Nat.exists_eq_add_of_lt hle
      simp only [toJson] at h ⊢
      split at h
      · cases h
      · next ms hms => rw [toMembers_mono (by omega) hms]; exact h

theorem toJsons_mono {d e : Nat} (hle : d ≤ e) : ∀ {os : List Outline} {vs : List Json},
    toJsons d os = .ok vs → toJsons e os = .ok vs
  | [], _, h => h
  | o :: os, _, h => by
    simp only [toJsons] at h ⊢
    split at h
    · cases h
    · next v hv =>
      split at h
      · cases h
      · next vs hvs =>
        rw [toJson_mono hle hv]
        simp only [toJsons_mono hle hvs]
        exact h

theorem toMembers_mono {d e : Nat} (hle : d ≤ e) : ∀ {ms : List (Option String × Outline)}
    {read rs : List (String × Json)}, toMembers d read ms = .ok rs → toMembers e read ms = .ok rs
  | [], _, _, h => h
  | (none, _) :: _, _, _, h => h
  | (some k, o) :: ms, read, _, h => by
    simp only [toMembers] at h ⊢
    split at h
    · cases h
    · next v hv =>
      rw [toJson_mono hle hv]
      exact toMembers_mono hle h

end

/-- **An outline with a value** of bounded depth. -/
def Fits (d : Nat) (o : Outline) : Prop := ∃ v, toJson d o = .ok v

theorem fits_of_toJsons {d : Nat} {os : List Outline} {vs : List Json}
    (h : toJsons d os = .ok vs) : ∀ o ∈ os, Fits d o := by
  induction os generalizing vs with
  | nil => simp
  | cons o os ih =>
    simp only [toJsons] at h
    split at h
    · cases h
    · next v hv =>
      split at h
      · cases h
      · next vs hvs => exact List.forall_mem_cons.mpr ⟨⟨v, hv⟩, ih hvs⟩

theorem fits_of_toMembers {d : Nat} {ms : List (Option String × Outline)}
    {read rs : List (String × Json)} (h : toMembers d read ms = .ok rs) :
    ∀ m ∈ ms, Fits d m.2 := by
  induction ms generalizing read with
  | nil => simp
  | cons m ms ih =>
    simp only [toMembers] at h
    split at h
    · cases h
    · split at h
      · cases h
      · next v hv => exact List.forall_mem_cons.mpr ⟨⟨v, hv⟩, ih h⟩

/-- The parts of an outline with a value have values, and less depth. -/
theorem Fits.part {d : Nat} {o p : Outline} (h : Fits (d + 1) o) (hp : p ∈ o.parts) : Fits d p := by
  obtain ⟨v, hv⟩ := h
  cases o with
  | array items closed =>
    simp only [toJson] at hv
    split at hv
    · cases hv
    · next vs hvs => exact fits_of_toJsons hvs p hp
  | object members closed =>
    simp only [toJson] at hv
    split at hv
    · cases hv
    · next ms hms =>
      obtain ⟨m, hm, rfl⟩ := List.mem_map.mp hp
      exact fits_of_toMembers hms m hm
  | _ => cases hp

/-- What is taken with more depth than needed is no deeper. -/
theorem Fits.depth_le {d e : Nat} {o : Outline} {v : Json} (h : Fits d o) (hle : d ≤ e)
    (hv : toJson e o = .ok v) : v.depth ≤ d := by
  obtain ⟨w, hw⟩ := h
  have heq := toJson_mono hle hw
  rw [hv] at heq
  cases heq
  exact (toJson_taken hw).depth

end Outline

end CatalogChain
