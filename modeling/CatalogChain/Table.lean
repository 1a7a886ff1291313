/-!
# Tables

Two kinds of finite maps from texts.  A `Table` keeps its entries in the order in which their keys
were first put and replaces a value in its place.  A sorted table (`SortedTable`) keeps its keys
in ascending order, so that equal contents are equal tables.

The view of a `Table` is `Table.get?`; `get?_put` and `get?_erase` say what each operation does to
it.
-/

namespace CatalogChain

/-! ## Entries as lists -/

namespace Entries

variable {α : Type}

/-- The value of a key. -/
def get? (k : String) : List (String × α) → Option α
  | [] => none
  | e :: es => if e.1 = k then some e.2 else get? k es

/-- Replaces the value of a key in its place, or appends a new entry. -/
def put (k : String) (v : α) : List (String × α) → List (String × α)
  | [] => [(k, v)]
  | e :: es => if e.1 = k then (k, v) :: es else e :: put k v es

/-- Drops the entry of a key. -/
def erase (k : String) : List (String × α) → List (String × α)
  | [] => []
  | e :: es => if e.1 = k then es else e :: erase k es

/-- Puts an entry into a list sorted by key; an entry of the same key is replaced. -/
def putSorted (k : String) (v : α) : List (String × α) → List (String × α)
  | [] => [(k, v)]
  | e :: es =>
    if k < e.1 then (k, v) :: e :: es
    else if e.1 = k then (k, v) :: es
    else e :: putSorted k v es

/-- The keys of a list of entries. -/
def keys (es : List (String × α)) : List String := es.map Prod.fst

theorem get?_put (k : String) (v : α) (es : List (String × α)) (k' : String) :
    get? k' (put k v es) = if k = k' then some v else get? k' es := by
  induction es with
  | nil => rfl
  | cons e es ih => grind [get?, put]

theorem mem_keys_put {k : String} {v : α} {es : List (String × α)} {k' : String} :
    k' ∈ keys (put k v es) ↔ k' = k ∨ k' ∈ keys es := by
  induction es with
  | nil => simp [put, keys]
  | cons e es ih =>
    unfold put
    split
    · next h => subst h; simp [keys]
    · simp only [keys, List.map_cons, List.mem_cons] at ih ⊢
      rw [ih]
      constructor <;> rintro (h | h | h) <;> simp [h]

theorem nodup_keys_put {k : String} {v : α} {es : List (String × α)} (h : (keys es).Nodup) :
    (keys (put k v es)).Nodup := by
  induction es with
  | nil => simp [put, keys]
  | cons e es ih =>
    simp only [keys, List.map_cons, List.nodup_cons] at h
    unfold put
    split
    · next he => subst he; simpa [keys] using h
    · next he =>
      have hmem : e.1 ∈ keys (put k v es) ↔ e.1 = k ∨ e.1 ∈ keys es := mem_keys_put
      simp only [keys, List.map_cons, List.nodup_cons] at hmem ⊢
      refine ⟨fun hin => ?_, ih h.2⟩
      rcases hmem.1 hin with heq | hin
      · exact he heq
      · exact h.1 hin

theorem mem_keys_of_mem_keys_erase {k k' : String} {es : List (String × α)}
    (h : k' ∈ keys (erase k es)) : k' ∈ keys es := by
  induction es with
  | nil => simpa [erase] using h
  | cons e es ih => grind [erase, keys]

theorem nodup_keys_erase {k : String} {es : List (String × α)} (h : (keys es).Nodup) :
    (keys (erase k es)).Nodup := by
  induction es with
  | nil => simpa [erase] using h
  | cons e es ih =>
    simp only [keys, List.map_cons, List.nodup_cons] at h
    unfold erase
    split
    · exact h.2
    · simp only [keys, List.map_cons, List.nodup_cons]
      exact ⟨fun hin => h.1 (mem_keys_of_mem_keys_erase hin), ih h.2⟩

theorem get?_eq_none_of_not_mem {k : String} {es : List (String × α)} (h : k ∉ keys es) :
    get? k es = none := by
  induction es with
  | nil => rfl
  | cons e es ih => grind [get?, keys]

theorem get?_erase {k : String} {es : List (String × α)} (h : (keys es).Nodup) (k' : String) :
    get? k' (erase k es) = if k = k' then none else get? k' es := by
  induction es with
  | nil => simp [erase, get?]
  | cons e es ih =>
    simp only [keys, List.map_cons, List.nodup_cons] at h
    have hnone : get? e.1 es = none := get?_eq_none_of_not_mem h.1
    have ih := ih h.2
    grind [erase, get?]

theorem get?_filter {keep : String → α → Bool} {es : List (String × α)} (h : (keys es).Nodup)
    (k : String) :
    get? k (es.filter fun e => keep e.1 e.2) = (get? k es).filter fun v => keep k v := by
  induction es with
  | nil => rfl
  | cons e es ih =>
    simp only [keys, List.map_cons, List.nodup_cons] at h
    have ih := ih h.2
    have hnone : get? e.1 es = none := get?_eq_none_of_not_mem h.1
    rw [List.filter_cons]
    grind [get?]

theorem get?_eq_some_iff {k : String} {v : α} {es : List (String × α)} (h : (keys es).Nodup) :
    get? k es = some v ↔ (k, v) ∈ es := by
  induction es with
  | nil => simp [get?]
  | cons e es ih =>
    simp only [keys, List.map_cons, List.nodup_cons] at h
    have hnone : (e.1, v) ∉ es := fun hmem => h.1 (List.mem_map.mpr ⟨_, hmem, rfl⟩)
    have ih := ih h.2
    grind [get?]

/-! ## Sorted entries -/

/-- Keys in ascending order, each once. -/
def Sorted (es : List (String × α)) : Prop := (keys es).Pairwise (· < ·)

theorem mem_keys_putSorted {k : String} {v : α} {es : List (String × α)} {k' : String}
    (h : k' ∈ keys (putSorted k v es)) : k' = k ∨ k' ∈ keys es := by
  induction es with
  | nil => simpa [putSorted, keys] using h
  | cons e es ih => grind [putSorted, keys]

theorem sorted_putSorted {k : String} {v : α} {es : List (String × α)} (h : Sorted es) :
    Sorted (putSorted k v es) := by
  induction es with
  | nil => simp [Sorted, putSorted, keys]
  | cons e es ih =>
    simp only [Sorted, keys, List.map_cons, List.pairwise_cons] at h ih
    unfold putSorted
    split
    · next hlt =>
      simp only [Sorted, keys, List.map_cons, List.pairwise_cons, List.mem_cons]
      refine ⟨?_, h⟩
      rintro x (rfl | hx)
      · exact hlt
      · exact String.lt_trans hlt (h.1 x hx)
    · next hlt =>
      split
      · next heq => subst heq; simpa [Sorted, keys] using h
      · next hne =>
        have hgt : e.1 < k := by
          rcases (Std.le_total : k ≤ e.1 ∨ e.1 ≤ k) with hle | hle
          · exact absurd (Std.lt_of_le_of_ne hle (Ne.symm hne)) hlt
          · exact Std.lt_of_le_of_ne hle hne
        simp only [Sorted, keys, List.map_cons, List.pairwise_cons]
        refine ⟨fun x hx => ?_, ih h.2⟩
        rcases mem_keys_putSorted hx with rfl | hx
        · exact hgt
        · exact h.1 x hx

end Entries

/-! ## Tables in order of insertion -/

/-- **A table**: entries under distinct keys, in the order in which the keys were first put. -/
structure Table (α : Type) where
  entries : List (String × α)
  nodup : (Entries.keys entries).Nodup

namespace Table

variable {α : Type}

/-- The table without entries. -/
def empty : Table α := ⟨[], by simp [Entries.keys]⟩

instance : Inhabited (Table α) := ⟨empty⟩

/-- The value of a key. -/
def get? (t : Table α) (k : String) : Option α := Entries.get? k t.entries

/-- Puts a value under a key. -/
def put (t : Table α) (k : String) (v : α) : Table α :=
  ⟨Entries.put k v t.entries, Entries.nodup_keys_put t.nodup⟩

/-- Drops the entry of a key. -/
def erase (t : Table α) (k : String) : Table α :=
  ⟨Entries.erase k t.entries, Entries.nodup_keys_erase t.nodup⟩

/-- Keeps the entries that satisfy a test. -/
def filter (t : Table α) (keep : String → α → Bool) : Table α :=
  ⟨t.entries.filter fun e => keep e.1 e.2,
    List.Nodup.sublist (List.Sublist.map _ List.filter_sublist) t.nodup⟩

/-- The number of entries. -/
def size (t : Table α) : Nat := t.entries.length

/-- The values in order of their keys' insertion. -/
def values (t : Table α) : List α := t.entries.map Prod.snd

@[simp] theorem get?_empty (k : String) : (empty : Table α).get? k = none := rfl

theorem get?_put (t : Table α) (k : String) (v : α) (k' : String) :
    (t.put k v).get? k' = if k = k' then some v else t.get? k' :=
  Entries.get?_put k v t.entries k'

theorem get?_erase (t : Table α) (k k' : String) :
    (t.erase k).get? k' = if k = k' then none else t.get? k' :=
  Entries.get?_erase t.nodup k'

theorem get?_filter (t : Table α) (keep : String → α → Bool) (k : String) :
    (t.filter keep).get? k = (t.get? k).filter fun v => keep k v :=
  Entries.get?_filter t.nodup k

theorem get?_eq_some_iff {t : Table α} {k : String} {v : α} :
    t.get? k = some v ↔ (k, v) ∈ t.entries :=
  Entries.get?_eq_some_iff t.nodup

end Table

/-! ## Sorted tables -/

/-- **A sorted table**: entries in ascending order of their keys, each key once. -/
structure SortedTable (α : Type) where
  entries : List (String × α)
  sorted : Entries.Sorted entries

namespace SortedTable

variable {α : Type}

instance [DecidableEq α] : DecidableEq (SortedTable α) := fun s t =>
  if h : s.entries = t.entries then isTrue (by cases s; cases t; simp_all)
  else isFalse fun heq => h (congrArg entries heq)

/-- The table without entries. -/
def empty : SortedTable α := ⟨[], by simp [Entries.Sorted, Entries.keys]⟩

instance : Inhabited (SortedTable α) := ⟨empty⟩

/-- Puts a value under a key. -/
def put (t : SortedTable α) (k : String) (v : α) : SortedTable α :=
  ⟨Entries.putSorted k v t.entries, Entries.sorted_putSorted t.sorted⟩

/-- The table of a list of entries, where a later entry replaces an earlier one of the same key. -/
def ofList (es : List (String × α)) : SortedTable α :=
  es.foldl (fun t e => t.put e.1 e.2) empty

end SortedTable

end CatalogChain
