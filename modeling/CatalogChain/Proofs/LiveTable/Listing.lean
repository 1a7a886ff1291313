import CatalogChain.LiveTable
import CatalogChain.Power
import Mathlib.Data.List.Sort
import Mathlib.Data.List.TakeDrop

/-!
# Pages of the live table

In a table whose products stand under their own ids (`LiveTable.Keyed`) no two products are listed
at one place, so the listing is in strictly ascending order (`LiveTable.Keyed.ascending_listing`)
and depends on nothing but which products the table holds (`LiveTable.Keyed.listing_congr`,
`LiveTable.Keyed.listing_perm`).  Pages cut the listing into pieces of one size, of which only the
last can be shorter (`List.pieces_eq_take`).  So the pages together show every product once
(`LiveTable.partition`), whatever became of the table before.
-/

namespace CatalogChain

/-! ## Products under their ids -/

/-- **Every product stands under its own id.** -/
def LiveTable.Keyed (live : LiveTable) : Prop := ∀ id p, live.get? id = some p → p.id = id

theorem LiveTable.keyed_empty : LiveTable.Keyed .empty := by
  intro id p h
  cases h

namespace LiveTable.Keyed

variable {live live' : LiveTable} (h : live.Keyed) (h' : live'.Keyed)
include h

theorem put (p : Product) : LiveTable.Keyed (live.put p.id p) := by
  intro id q hq
  rw [Table.get?_put] at hq
  split_ifs at hq with hid
  · cases hq
    exact hid
  · exact h id q hq

theorem erase (id : String) : LiveTable.Keyed (live.erase id) := by
  intro id' q hq
  rw [Table.get?_erase] at hq
  split_ifs at hq
  exact h id' q hq

/-- No event can make this otherwise. -/
theorem apply (e : Event) : (live.apply e).Keyed := by
  unfold LiveTable.apply
  split
  · exact h.put _
  · exact h.put _
  · exact h.erase _

end LiveTable.Keyed

namespace LiveTable

/-- **What becomes of a live table**: a product is put in, a new value takes the place of the old
one, or a product is taken out. -/
inductive Move where
  | insert (p : Product)
  | replace (p : Product)
  | remove (id : String)

def move (live : LiveTable) : Move → LiveTable
  | .insert p | .replace p => live.put p.id p
  | .remove id => live.erase id

/-- The table behind a list of moves. -/
def after (moves : List Move) : LiveTable := moves.foldl move .empty

theorem keyed_move {live : LiveTable} (h : live.Keyed) (m : Move) : (live.move m).Keyed := by
  cases m with
  | insert p => exact h.put p
  | replace p => exact h.put p
  | remove id => exact h.erase id

theorem keyed_foldl {live : LiveTable} (h : live.Keyed) (moves : List Move) :
    (moves.foldl move live).Keyed := by
  induction moves generalizing live with
  | nil => exact h
  | cons m ms ih => exact ih (keyed_move h m)

theorem keyed_after (moves : List Move) : (after moves).Keyed := keyed_foldl keyed_empty moves

end LiveTable

/-! ## The order of a listing -/

namespace Instant

theorem key_injective {s t : Instant} (h : s.key = t.key) : s = t := by
  cases s
  cases t
  simp only [key, List.cons.injEq, Int.natCast_inj, and_true] at h
  simp only [mk.injEq]
  exact h

theorem lt_irrefl (t : Instant) : ¬ t < t := List.lt_irrefl t.key

theorem lt_trans {s t u : Instant} (h : s < t) (h' : t < u) : s < u :=
  List.lt_trans (lt_iff.mp h) (lt_iff.mp h')

theorem lt_trichotomy (s t : Instant) : s < t ∨ s = t ∨ t < s := by
  rcases Std.lt_trichotomy s.key t.key with h | h | h
  · exact .inl h
  · exact .inr (.inl (key_injective h))
  · exact .inr (.inr h)

end Instant

namespace Product

/-- **A product is listed before another one**: it was created earlier, or at the same instant and
its id is the lesser one. -/
def Precedes (a b : Product) : Prop :=
  a.createdAt < b.createdAt ∨ (a.createdAt = b.createdAt ∧ a.id < b.id)

theorem Precedes.trans {a b c : Product} (h : a.Precedes b) (h' : b.Precedes c) :
    a.Precedes c := by
  rcases h with h | ⟨heq, h⟩
  · rcases h' with h' | ⟨heq', -⟩
    · exact .inl (Instant.lt_trans h h')
    · exact .inl (heq' ▸ h)
  · rcases h' with h' | ⟨heq', h'⟩
    · exact .inl (heq ▸ h')
    · exact .inr ⟨heq.trans heq', String.lt_trans h h'⟩

theorem not_precedes_self (a : Product) : ¬ a.Precedes a := by
  rintro (h | ⟨-, h⟩)
  · exact Instant.lt_irrefl _ h
  · exact String.lt_irrefl _ h

theorem precedes_trichotomy (a b : Product) :
    a.Precedes b ∨ (a.createdAt = b.createdAt ∧ a.id = b.id) ∨ b.Precedes a := by
  rcases Instant.lt_trichotomy a.createdAt b.createdAt with h | h | h
  · exact .inl (.inl h)
  · rcases Std.lt_trichotomy a.id b.id with h' | h' | h'
    · exact .inl (.inr ⟨h, h'⟩)
    · exact .inr (.inl ⟨h, h'⟩)
    · exact .inr (.inr (.inr ⟨h.symm, h'⟩))
  · exact .inr (.inr (.inl h))

end Product

namespace LiveTable

/-- A listing puts a product no later than another one if that one does not precede it. -/
theorem listedBefore_iff {a b : Product} : listedBefore a b = true ↔ ¬ b.Precedes a := by
  have hle : a.id ≤ b.id ↔ ¬ b.id < a.id := Iff.rfl
  rw [listedBefore, Bool.or_eq_true, Bool.and_eq_true, decide_eq_true_iff, decide_eq_true_iff,
    decide_eq_true_iff, hle]
  constructor
  · rintro (h | ⟨heq, h⟩) (h' | ⟨heq', h'⟩)
    · exact Instant.lt_irrefl _ (Instant.lt_trans h h')
    · exact Instant.lt_irrefl _ (heq' ▸ h)
    · exact Instant.lt_irrefl _ (heq ▸ h')
    · exact h h'
  · intro h
    rcases a.precedes_trichotomy b with (h' | ⟨heq, h'⟩) | ⟨heq, hid⟩ | h'
    · exact .inl h'
    · exact .inr ⟨heq, fun hlt => String.lt_irrefl _ (String.lt_trans h' hlt)⟩
    · exact .inr ⟨heq, fun hlt => String.lt_irrefl _ (hid ▸ hlt)⟩
    · exact absurd h' h

theorem listedBefore_total (a b : Product) : (listedBefore a b || listedBefore b a) = true := by
  rw [Bool.or_eq_true, listedBefore_iff, listedBefore_iff]
  by_cases h : b.Precedes a
  · exact .inr fun h' => a.not_precedes_self (h'.trans h)
  · exact .inl h

theorem listedBefore_trans (a b c : Product) (h : listedBefore a b = true)
    (h' : listedBefore b c = true) : listedBefore a c = true := by
  rw [listedBefore_iff] at h h' ⊢
  intro hca
  rcases a.precedes_trichotomy b with hab | ⟨hat, hid⟩ | hba
  · exact h' (hca.trans hab)
  · refine h' ?_
    rw [Product.Precedes, ← hat, ← hid]
    exact hca
  · exact h hba

end LiveTable

/-! ## The listing -/

namespace LiveTable

variable {live live' : LiveTable}

theorem perm_listing (live : LiveTable) : live.listing.Perm live.values :=
  List.mergeSort_perm ..

theorem length_listing (live : LiveTable) : live.listing.length = live.size := by
  rw [live.perm_listing.length_eq, Table.values, List.length_map, Table.size]

namespace Keyed

variable (h : live.Keyed)
include h

/-- **A product is listed if it stands under its id.** -/
theorem mem_listing {p : Product} : p ∈ live.listing ↔ live.get? p.id = some p := by
  rw [live.perm_listing.mem_iff, Table.values, List.mem_map, Table.get?_eq_some_iff]
  constructor
  · rintro ⟨⟨id, q⟩, hmem, rfl⟩
    have hid : q.id = id := h id q (Table.get?_eq_some_iff.mpr hmem)
    rwa [← hid] at hmem
  · exact fun hmem => ⟨_, hmem, rfl⟩

/-- No two products have one id. -/
theorem pairwise_values : live.values.Pairwise fun a b => a.id ≠ b.id := by
  have hids : live.values.map Product.id = Entries.keys live.entries := by
    rw [Table.values, Entries.keys, List.map_map]
    exact List.map_congr_left fun e he => h e.1 e.2 (Table.get?_eq_some_iff.mpr he)
  exact List.pairwise_map.mp (hids ▸ live.nodup)

/-- **The listing is in strictly ascending order.** -/
theorem ascending_listing : live.listing.Pairwise Product.Precedes := by
  have hids : live.listing.Pairwise fun a b => a.id ≠ b.id :=
    h.pairwise_values.perm live.perm_listing.symm Ne.symm
  have hsorted := List.pairwise_mergeSort listedBefore_trans listedBefore_total live.values
  refine (hids.and hsorted).imp fun {a b} ⟨hid, hle⟩ => ?_
  rcases a.precedes_trichotomy b with hab | ⟨-, heq⟩ | hba
  · exact hab
  · exact absurd heq hid
  · exact absurd hba (listedBefore_iff.mp hle)

/-- **The listing depends on the products only**: a list of the same products in strictly ascending
order is the listing. -/
theorem eq_listing {ps : List Product} (hps : ps.Pairwise Product.Precedes)
    (hmem : ∀ p, p ∈ ps ↔ live.get? p.id = some p) : ps = live.listing := by
  have hne : ∀ {a b : Product}, a.Precedes b → a ≠ b := by
    rintro a _ hab rfl
    exact a.not_precedes_self hab
  have hperm : ps.Perm live.listing :=
    (List.perm_ext_iff_of_nodup (hps.imp hne) (h.ascending_listing.imp hne)).mpr fun p =>
      (hmem p).trans h.mem_listing.symm
  refine hperm.eq_of_pairwise (fun a b _ _ hab hba => ?_) hps h.ascending_listing
  exact absurd (hab.trans hba) a.not_precedes_self

/-- Tables of the same products have one listing. -/
theorem listing_congr (h' : live'.Keyed) (heq : ∀ id, live'.get? id = live.get? id) :
    live'.listing = live.listing :=
  h.eq_listing h'.ascending_listing fun p => by rw [h'.mem_listing, heq]

/-- The values of a table have one listing in whatever order they come. -/
theorem listing_perm {ps : List Product} (hps : ps.Perm live.values) :
    ps.mergeSort listedBefore = live.listing := by
  have hperm := (List.mergeSort_perm ps listedBefore).trans (hps.trans live.perm_listing.symm)
  refine hperm.eq_of_pairwise (fun a b ha hb hab hba => ?_)
    (List.pairwise_mergeSort listedBefore_trans listedBefore_total ps)
    (List.pairwise_mergeSort listedBefore_trans listedBefore_total live.values)
  rw [listedBefore_iff] at hab hba
  rcases a.precedes_trichotomy b with hlt | ⟨-, hid⟩ | hlt
  · exact absurd hlt hba
  · have ha := h.mem_listing.mp (hperm.mem_iff.mp ha)
    have hb := h.mem_listing.mp hb
    rw [hid] at ha
    exact Option.some.inj (ha.symm.trans hb)
  · exact absurd hlt hab

end Keyed

/-! ## Pages -/

/-- Pieces of one size, one behind the other, are an initial part of a list. -/
theorem flatMap_pieces {α : Type} (as : List α) (s k : Nat) :
    (List.range k).flatMap (fun i => (as.drop (i * s)).take s) = as.take (k * s) := by
  induction k with
  | zero => simp
  | succ k ih =>
    rw [List.range_succ, List.flatMap_append, ih, List.flatMap_singleton, Nat.succ_mul,
      List.take_add]

theorem effectiveSize_pos (size : Nat) : 0 < effectiveSize size := by
  unfold effectiveSize defaultPageSize maxPageSize
  split <;> omega

/-- How many pages there are. -/
def totalPages (live : LiveTable) (size : Nat) : Nat := (live.page 1 size).totalPages

/-- The products of all pages, one page after the other. -/
def pages (live : LiveTable) (size : Nat) : List Product :=
  (List.range (live.totalPages size)).flatMap fun i => (live.page (i + 1) size).data

/-- **The number of pages is a quotient**, rounded up. -/
theorem totalPages_le_iff (live : LiveTable) (size k : Nat) :
    live.totalPages size ≤ k ↔ live.size ≤ k * effectiveSize size := by
  have hpos := effectiveSize_pos size
  show (live.size + effectiveSize size - 1) / effectiveSize size ≤ k ↔ _
  rw [← Nat.lt_succ_iff, Nat.div_lt_iff_lt_mul hpos, Nat.succ_mul]
  omega

theorem data_page (live : LiveTable) (n size : Nat) :
    (live.page (n + 1) size).data =
      (live.listing.drop (n * effectiveSize size)).take (effectiveSize size) := by
  show (live.listing.drop ((max (n + 1) 1 - 1) * _)).take _ = _
  rw [Nat.max_eq_left (Nat.le_add_left 1 n), Nat.add_sub_cancel]

/-- **All pages together are the listing.** -/
theorem pages_eq_listing (live : LiveTable) (size : Nat) : live.pages size = live.listing := by
  have hlength : live.listing.length ≤ live.totalPages size * effectiveSize size := by
    rw [live.length_listing, ← totalPages_le_iff]
  simp only [pages, data_page]
  rw [flatMap_pieces, List.take_of_length_le hlength]

theorem length_data_page (live : LiveTable) (n size : Nat) : (live.page (n + 1) size).data.length =
    min (effectiveSize size) (live.size - n * effectiveSize size) := by
  rw [data_page, List.length_take, List.length_drop, live.length_listing]

/-! ## Products in any order and offsets in words -/

/-- **A page of products that come in any order.**  The offset of the page is counted in words of 64
bits, and the greatest word stands for all offsets that do not fit; the number of pages is the
quotient, and one more if there is a remainder. -/
def pageOf (products : List Product) (page size : Nat) : Page :=
  let page := max page 1
  let size := effectiveSize size
  { data := ((products.mergeSort listedBefore).drop
      (min ((page - 1) * size) (twoTo 64 - 1))).take size
    page
    pageSize := size
    totalItems := products.length
    totalPages := products.length / size + if products.length % size = 0 then 0 else 1 }

theorem drop_min {α : Type} {as : List α} {n bound : Nat} (h : as.length ≤ bound) :
    as.drop (min n bound) = as.drop n := by
  rcases Nat.le_total n bound with hle | hle
  · rw [Nat.min_eq_left hle]
  · rw [Nat.min_eq_right hle, List.drop_of_length_le h, List.drop_of_length_le (h.trans hle)]

theorem add_sub_one_div {n s : Nat} (h : 0 < s) :
    (n + s - 1) / s = n / s + if n % s = 0 then 0 else 1 := by
  have hn := Nat.div_add_mod n s
  have hlt := Nat.mod_lt n h
  split
  · refine Nat.div_eq_of_lt_le ?_ ?_ <;> rw [Nat.mul_comm]
    · rw [Nat.add_zero]
      omega
    · rw [Nat.add_zero, Nat.mul_add, Nat.mul_one]
      omega
  · refine Nat.div_eq_of_lt_le ?_ ?_ <;> rw [Nat.mul_comm, Nat.mul_add, Nat.mul_one]
    · omega
    · rw [Nat.mul_add, Nat.mul_one]
      omega

/-- **Neither the order in which values come nor the width of words matters** to a page. -/
theorem Keyed.pageOf_perm (h : live.Keyed) {ps : List Product} (hps : ps.Perm live.values)
    (hsize : live.size < twoTo 64) (n size : Nat) : pageOf ps n size = live.page n size := by
  have hlength : ps.length = live.size := by
    rw [hps.length_eq, Table.values, List.length_map, Table.size]
  have hbound : live.listing.length ≤ twoTo 64 - 1 := by
    rw [live.length_listing]
    omega
  unfold pageOf page
  simp only [h.listing_perm hps, hlength, drop_min hbound,
    add_sub_one_div (effectiveSize_pos size)]

/-! ## The partition -/

/-- **A live table is cut into pages** of size `s` where pages of a given size are asked for. -/
structure Paged (live : LiveTable) (size s : Nat) : Prop where
  /-- The pages together show just the products that are stored, -/
  complete : ∀ id p, live.get? id = some p ↔ p.id = id ∧ p ∈ live.pages size
  /-- in strictly ascending order, so each of them once. -/
  ascending : (live.pages size).Pairwise Product.Precedes
  totals : ∀ n, (live.page n size).pageSize = s ∧
    (live.page n size).totalItems = (live.pages size).length ∧
    (live.page n size).totalPages = live.totalPages size
  quotient : ∀ k, live.totalPages size ≤ k ↔ (live.pages size).length ≤ k * s
  full : ∀ n, 1 ≤ n → n < live.totalPages size → (live.page n size).data.length = s
  last : 0 < live.totalPages size →
    1 ≤ (live.page (live.totalPages size) size).data.length ∧
      (live.page (live.totalPages size) size).data.length ≤ s
  zero : live.page 0 size = live.page 1 size
  beyond : ∀ n, live.totalPages size < n → (live.page n size).data = []
  /-- Values can come in any order, and offsets in words are good enough. -/
  words : ∀ ps : List Product, ps.Perm live.values → live.size < twoTo 64 →
    ∀ n, pageOf ps n size = live.page n size
  /-- The pages are those of any other way to the same products. -/
  history : ∀ moves, (∀ id, (after moves).get? id = live.get? id) →
    ∀ n, (after moves).page n size = live.page n size

theorem Keyed.page_congr (h : live.Keyed) (h' : live'.Keyed)
    (heq : ∀ id, live'.get? id = live.get? id) (n size : Nat) :
    live'.page n size = live.page n size := by
  have hlisting := h.listing_congr h' heq
  unfold page
  rw [hlisting, ← live'.length_listing, ← live.length_listing, hlisting]

theorem Keyed.paged (h : live.Keyed) (size : Nat) : live.Paged size (effectiveSize size) where
  complete id p := by
    rw [live.pages_eq_listing, h.mem_listing]
    refine ⟨fun hp => ?_, fun ⟨hid, hp⟩ => hid ▸ hp⟩
    have hid := h id p hp
    exact ⟨hid, hid ▸ hp⟩
  ascending := by
    rw [live.pages_eq_listing]
    exact h.ascending_listing
  totals n := by
    rw [live.pages_eq_listing, live.length_listing]
    exact ⟨rfl, rfl, rfl⟩
  quotient k := by
    rw [live.pages_eq_listing, live.length_listing]
    exact live.totalPages_le_iff size k
  full n hn hlt := by
    obtain ⟨n, rfl⟩ := Nat.exists_eq_add_of_le' hn
    have hmore := (not_congr (live.totalPages_le_iff size (n + 1))).mp (by omega)
    rw [length_data_page, Nat.min_eq_left]
    rw [Nat.succ_mul] at hmore
    omega
  last hpos := by
    obtain ⟨n, hn⟩ := Nat.exists_eq_add_of_le' hpos
    have hmore := (not_congr (live.totalPages_le_iff size n)).mp (by omega)
    have hsize := effectiveSize_pos size
    rw [hn, length_data_page]
    omega
  zero := rfl
  beyond n hlt := by
    obtain ⟨n, rfl⟩ := Nat.exists_eq_add_of_le' (Nat.lt_of_le_of_lt (Nat.zero_le _) hlt)
    have hall := (live.totalPages_le_iff size n).mp (Nat.le_of_lt_succ hlt)
    rw [← List.length_eq_zero_iff, length_data_page]
    omega
  words ps hps hsize n := h.pageOf_perm hps hsize n size
  history moves heq n := h.page_congr (keyed_after moves) heq n size

/-- **Paging cuts the live table into pages**, whatever has been put in and taken out of it and
whatever size is asked for. -/
theorem paged_after (moves : List Move) (size : Nat) :
    (after moves).Paged size (if size = 0 then 10 else min size 100) :=
  (keyed_after moves).paged size

end LiveTable

end CatalogChain
