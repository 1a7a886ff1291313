import CatalogChain.Proofs.Json.Accepted
import CatalogChain.Proofs.Json.Text

/-!
# Decoding and encoding

A codec is a reader of outlines and an encoder into values.  Decoding a text is finding its outline
and reading that (`Codec.decode?`); encoding is writing the value of the encoder (`Codec.encode`).
What has been encoded can be decoded if the reader accepts the outline of the value
(`Codec.returns_of_read`), as long as the value is one that reads back from its text, which can be
told from its parts (`Json.Within`).
-/

namespace CatalogChain

/-- **A codec**: how a type is read from an outline, and which value it is written as. -/
structure Codec (α : Type) where
  read : Outline → Reading α
  toJson : α → Json

namespace Codec

variable {α : Type} (c : Codec α)

/-- **Decoding a text**: the text is JSON as a whole, and its outline has what is asked for. -/
def decode? (s : String) : Option α :=
  (Outline.readWhole? s).bind fun o => (c.read o).toOption

/-- **Encoding.** -/
def encode (a : α) : String := (c.toJson a).text

/-- **A value comes back** as another one when its encoding is decoded. -/
def Returns (a b : α) : Prop := c.decode? (c.encode a) = some b

variable {c}

theorem decode?_eq_some_iff {s : String} {a : α} :
    c.decode? s = some a ↔ ∃ o, Outline.readWhole? s = some o ∧ c.read o = .ok a := by
  rw [decode?, Option.bind_eq_some_iff]
  refine exists_congr fun o => and_congr_right' ?_
  cases c.read o <;> simp [Except.toOption]

/-- **What has been encoded comes back** if the outline of its value can be read. -/
theorem returns_of_read {read : Outline → Reading α} {toJson : α → Json} {a b : α}
    (h : (toJson a).Integral) (hread : read (.ofJson (toJson a)) = .ok b) :
    (Codec.mk read toJson).Returns a b :=
  decode?_eq_some_iff.mpr ⟨_, Outline.readWhole?_text h, hread⟩

/-- What is decoded has been read from an outline whose numbers are in range. -/
theorem exists_outline {s : String} {a : α} (h : c.decode? s = some a) :
    ∃ o : Outline, (∀ n ∈ o.numbers, n.InRange) ∧ c.read o = .ok a := by
  obtain ⟨o, ho, hread⟩ := decode?_eq_some_iff.mp h
  exact ⟨o, Outline.inRange_of_readWhole? ho, hread⟩

end Codec

namespace Json

/-- **A value within bounds**: nested no deeper than a depth, its numbers integers of 64 bits. -/
structure Within (d : Nat) (v : Json) : Prop where
  depth : v.depth ≤ d
  integral : v.Integral

theorem Within.mono {d e : Nat} {v : Json} (h : v.Within d) (hle : d ≤ e) : v.Within e :=
  ⟨Nat.le_trans h.depth hle, h.integral⟩

theorem within_string (d : Nat) (s : String) : (string s).Within d :=
  ⟨Nat.zero_le d, fun _ hn => by cases hn⟩

theorem within_bool (d : Nat) (b : Bool) : (bool b).Within d :=
  ⟨Nat.zero_le d, fun _ hn => by cases hn⟩

theorem within_null (d : Nat) : null.Within d :=
  ⟨Nat.zero_le d, fun _ hn => by cases hn⟩

theorem within_int (d : Nat) {n : Int} (h : IsInt64 n) : (int n).Within d := by
  refine ⟨Nat.zero_le d, fun x hx => ?_⟩
  rw [List.mem_singleton.mp hx]
  have hle : (twoTo 63 : Int) ≤ twoTo 64 := by decide
  exact ⟨rfl, h.1, Int.lt_of_lt_of_le h.2 hle⟩

theorem within_nat (d : Nat) {n : Nat} (h : IsLength n) : (nat n).Within d := by
  refine ⟨Nat.zero_le d, fun x hx => ?_⟩
  rw [List.mem_singleton.mp hx]
  refine ⟨rfl, ?_, Int.ofNat_lt.mpr h⟩
  have hneg : -(twoTo 63 : Int) ≤ 0 := by decide
  omega

theorem within_object {d : Nat} {ms : List (String × Json)} (h : ∀ m ∈ ms, m.2.Within d) :
    (object ms).Within (d + 1) where
  depth := Nat.succ_le_succ (memberDepth_le_iff.mpr fun m hm => (h m hm).depth)
  integral n hn := by
    obtain ⟨m, hm, hn⟩ := mem_memberNumbers.mp hn
    exact (h m hm).integral n hn

theorem within_list {α : Type} {encode : α → Json} {as : List α} {d : Nat}
    (h : ∀ a ∈ as, (encode a).Within d) : (list encode as).Within (d + 1) where
  depth := by
    refine Nat.succ_le_succ (itemDepth_le_iff.mpr fun v hv => ?_)
    obtain ⟨a, ha, rfl⟩ := List.mem_map.mp hv
    exact (h a ha).depth
  integral n hn := by
    obtain ⟨v, hv, hn⟩ := mem_itemNumbers.mp hn
    obtain ⟨a, ha, rfl⟩ := List.mem_map.mp hv
    exact (h a ha).integral n hn

end Json

end CatalogChain
