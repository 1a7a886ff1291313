import CatalogChain.Text.Hex

/-!
# Universally unique identifiers

An identifier is a number of 128 bits.  It is written as thirty-two hexadecimal digits in five
groups (`Uuid.text`) and read from four notations: the written one, the digits alone, the written
one in braces, and the written one after `urn:uuid:`.
-/

namespace CatalogChain

/-- **An identifier** of 128 bits. -/
structure Uuid where
  value : BitVec 128
deriving DecidableEq, Inhabited

namespace Uuid

/-- The identifier without a set bit, which is never drawn. -/
def nil : Uuid := ⟨0⟩

/-- The written form: lower-case digits with a hyphen between the groups. -/
def text (u : Uuid) : String :=
  let digits := Text.hexDigits 32 u.value.toNat
  String.ofList <|
    digits.take 8 ++ '-' :: (digits.drop 8).take 4 ++ '-' :: (digits.drop 12).take 4 ++
      '-' :: (digits.drop 16).take 4 ++ '-' :: digits.drop 20

private def ofDigits? (cs : List Char) : Option Uuid :=
  if cs.length = 32 then (Text.readHex? cs).map fun n => ⟨BitVec.ofNat 128 n⟩ else none

/-- Reads groups of digits with hyphens between them. -/
private def readGrouped? (cs : List Char) : Option Uuid :=
  if cs.length = 36 ∧ [8, 13, 18, 23].all (fun i => cs[i]? = some '-') then
    ofDigits? (cs.take 8 ++ (cs.drop 9).take 4 ++ (cs.drop 14).take 4 ++ (cs.drop 19).take 4 ++
      cs.drop 24)
  else none

/-- What stands in front of an identifier as a resource name, in letters of either case. -/
def urnLead : List Char := "urn:uuid:".toList

/-- **Reading an identifier** in one of its four notations. -/
def read? (s : String) : Option Uuid :=
  match s.toList with
  | '{' :: cs => if cs.getLast? = some '}' then readGrouped? cs.dropLast else none
  | cs =>
    if cs.length = 32 then ofDigits? cs
    else if (cs.take 9).map Char.toLower = urnLead then readGrouped? (cs.drop 9)
    else readGrouped? cs

/-! ## What is written reads back -/

private theorem ofDigits?_hexDigits (u : Uuid) :
    ofDigits? (Text.hexDigits 32 u.value.toNat) = some u := by
  have hmod : u.value.toNat % twoTo (4 * 32) = u.value.toNat := Nat.mod_eq_of_lt u.value.isLt
  rw [ofDigits?, if_pos (Text.length_hexDigits ..), Text.readHex?_hexDigits, hmod, Option.map_some,
    BitVec.ofNat_toNat, BitVec.setWidth_eq]

/-- Groups of digits are read without the hyphens between them. -/
private theorem readGrouped?_groups {a b c d e : List Char} (ha : a.length = 8)
    (hb : b.length = 4) (hc : c.length = 4) (hd : d.length = 4) (he : e.length = 12) :
    readGrouped? (a ++ '-' :: b ++ '-' :: c ++ '-' :: d ++ '-' :: e) =
      ofDigits? (a ++ b ++ c ++ d ++ e) := by
  rw [readGrouped?, if_pos]
  · simp [ha, hb, hc, hd, List.drop_append, List.drop_eq_nil_of_le]
  · constructor
    · simp [ha, hb, hc, hd, he]
    · simp [ha, hb, hc, hd, List.getElem?_append, List.getElem?_cons]

private theorem take_append_drop_add (cs : List Char) (i n : Nat) :
    cs.take i ++ (cs.drop i).take n = cs.take (i + n) := (List.take_add ..).symm

/-- What begins with a digit is neither in braces nor a resource name. -/
private theorem read?_ofList_cons {c : Char} {cs : List Char} (hbrace : c ≠ '{')
    (hlower : c.toLower ≠ 'u') (hlen : (c :: cs).length = 36) :
    read? (String.ofList (c :: cs)) = readGrouped? (c :: cs) := by
  have hurn : ((c :: cs).take 9).map Char.toLower ≠ urnLead := by
    intro h
    exact hlower (List.cons.inj h).1
  unfold read?
  rw [String.toList_ofList]
  split
  · next heq => exact absurd (List.cons.inj heq).1 hbrace
  · rw [if_neg (by omega), if_neg hurn]

theorem ne_of_mem_hexDigits {c : Char} {width n : Nat} (h : c ∈ Text.hexDigits width n) :
    c ≠ '{' ∧ c.toLower ≠ 'u' := by
  have hdigit : ∀ m < 16, Text.hexDigit m ≠ '{' ∧ (Text.hexDigit m).toLower ≠ 'u' := by decide
  induction width generalizing n with
  | zero => cases h
  | succ width ih =>
    rcases List.mem_append.mp h with h | h
    · exact ih h
    · rw [List.mem_singleton.mp h]
      exact hdigit _ (Nat.mod_lt _ (by decide))

/-- **An identifier that is written reads back.** -/
theorem read?_text (u : Uuid) : read? u.text = some u := by
  have hlen : (Text.hexDigits 32 u.value.toNat).length = 32 := Text.length_hexDigits ..
  have hmem : ∀ c ∈ Text.hexDigits 32 u.value.toNat, c ≠ '{' ∧ c.toLower ≠ 'u' := fun c hc =>
    ne_of_mem_hexDigits hc
  have hdigits := ofDigits?_hexDigits u
  unfold text
  generalize Text.hexDigits 32 u.value.toNat = ds at hlen hmem hdigits
  have hgroups := readGrouped?_groups (a := ds.take 8) (b := (ds.drop 8).take 4)
    (c := (ds.drop 12).take 4) (d := (ds.drop 16).take 4) (e := ds.drop 20)
    (by simp [hlen]) (by simp [hlen]) (by simp [hlen]) (by simp [hlen]) (by simp [hlen])
  rw [take_append_drop_add, take_append_drop_add, take_append_drop_add, List.take_append_drop,
    hdigits] at hgroups
  cases ds with
  | nil => cases hlen
  | cons c cs =>
    obtain ⟨hbrace, hlower⟩ := hmem c List.mem_cons_self
    rw [← hgroups]
    refine read?_ofList_cons hbrace hlower ?_
    rw [List.length_cons] at hlen
    simp
    omega

end Uuid

end CatalogChain
