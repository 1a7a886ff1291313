import CatalogChain.Product.Fingerprint
import CatalogChain.Proofs.Product.Bounds
import CatalogChain.Proofs.Product.Same

/-!
# Canonical bytes are unambiguous

An encoding is unambiguous (`Unambiguous`) if two values that are encoded in front of anything can
be told apart there, unless they are the same: nothing of one value can be taken for a part of what
follows it.  Encodings of this kind are put one behind the other (`Unambiguous.append`) and counted
in lists (`Unambiguous.list`), so each encoder of `Canonical` has its lemma, read off its parts, up
to the canonical bytes of a product.

The bytes tell apart exactly what the differences between two contents report
(`Product.canonicalBytes_eq_iff`).
-/

namespace CatalogChain

/-! ## Bytes of numbers and texts -/

theorem Sha256.bytes64_inj {m n : Nat} (hm : IsLength m) (hn : IsLength n) :
    bytes64 m = bytes64 n ↔ m = n := by
  refine ⟨fun h => ?_, congrArg bytes64⟩
  have hm' : m < 18446744073709551616 := hm
  have hn' : n < 18446744073709551616 := hn
  simp only [bytes64, List.map_cons, List.map_nil, List.cons.injEq, and_true,
    ← UInt8.toNat_inj, UInt8.toNat_ofNat', Nat.shiftRight_eq_div_pow] at h
  omega

theorem toList_loop_eq (bs : ByteArray) (i : Nat) (r : List UInt8) :
    ByteArray.toList.loop bs i r = r.reverse ++ bs.data.toList.drop i := by
  -- the loop collects the bytes in front of `i` backwards
  fun_induction ByteArray.toList.loop bs i r with
  | case1 i r h ih =>
    have hi : i < bs.data.toList.length := h
    have hget : bs.get! i = bs.data.toList[i] := getElem!_pos bs.data i h
    rw [ih, List.drop_eq_getElem_cons hi, hget, List.reverse_cons, List.append_assoc,
      List.singleton_append]
  | case2 i r h =>
    have hi : bs.data.toList.length ≤ i := Nat.le_of_not_lt h
    rw [List.drop_eq_nil_of_le hi, List.append_nil]

theorem Text.utf8_eq (s : String) : utf8 s = s.toByteArray.data.toList := by
  rw [utf8, ByteArray.toList, toList_loop_eq]
  rfl

theorem Text.utf8_inj {s t : String} : utf8 s = utf8 t ↔ s = t := by
  rw [utf8_eq, utf8_eq, Array.toList_inj, ← ByteArray.ext_iff, String.toByteArray_inj]

theorem Text.length_utf8 (s : String) : (utf8 s).length = s.utf8ByteSize := by
  rw [utf8_eq]
  rfl

theorem utf8ByteSize_ofList_le (cs : List Char) :
    (String.ofList cs).utf8ByteSize ≤ 4 * cs.length := by
  induction cs with
  | nil => decide
  | cons c cs ih =>
    have hc := Char.utf8Size_le_four c
    rw [String.ofList_cons, String.utf8ByteSize_append, String.utf8ByteSize_singleton,
      List.length_cons]
    omega

namespace Decimal

theorem length_pointed_le {n s : Nat} (hn : n < bound) (hs : s ≤ 28) :
    (pointed n s).length ≤ 58 := by
  have hdigits : ∀ m, m < bound → (Nat.toDigits 10 m).length ≤ 29 := fun m hm =>
    (Nat.length_toDigits_le_iff (by decide) (by decide)).mpr (Nat.lt_trans hm (by decide))
  unfold pointed
  split_ifs with h0
  · have hlen := hdigits n hn
    omega
  · have hlen := hdigits (n / tenTo s) (Nat.lt_of_le_of_lt (Nat.div_le_self _ _) hn)
    have hpad := length_padded (Nat.pos_of_ne_zero h0) (Nat.mod_lt n (tenTo_pos s))
    rw [List.length_append, List.length_cons, hpad]
    omega

/-- The notation of an amount has a bounded length. -/
theorem isShort_text (d : Decimal) : IsShort d.text := by
  have hlen := length_pointed_le d.magnitude_lt d.scale_le
  have hbound : 4 * 59 < twoTo 64 := by decide
  refine Nat.lt_of_le_of_lt (utf8ByteSize_ofList_le _) (Nat.lt_of_le_of_lt ?_ hbound)
  rw [List.length_append]
  split_ifs
  · rw [List.length_singleton]
    omega
  · rw [List.length_nil]
    omega

end Decimal

/-! ## Unambiguous encodings -/

/-- **An unambiguous encoding** of the values in a domain, up to what counts as the same. -/
def Unambiguous {α : Type} (encode : α → List UInt8) (dom : α → Prop) (same : α → α → Prop) :
    Prop :=
  ∀ ⦃a b⦄, dom a → dom b → ∀ r r', encode a ++ r = encode b ++ r' ↔ same a b ∧ r = r'

namespace Unambiguous

variable {α β : Type} {encode encode' : α → List UInt8} {dom dom' : α → Prop}
  {same same' : α → α → Prop}

theorem mono (h : Unambiguous encode dom same) (hdom : ∀ a, dom' a → dom a)
    (hsame : ∀ a b, same a b ↔ same' a b) : Unambiguous encode dom' same' := by
  intro a b ha hb r r'
  rw [h (hdom a ha) (hdom b hb), hsame]

/-- The encoding of a part of a value. -/
theorem part (h : Unambiguous encode dom same) (f : β → α) :
    Unambiguous (fun b => encode (f b)) (fun b => dom (f b)) fun a b => same (f a) (f b) :=
  fun _ _ ha hb => h ha hb

/-- Two encodings, one behind the other. -/
theorem append (h : Unambiguous encode dom same) (h' : Unambiguous encode' dom' same') :
    Unambiguous (fun a => encode a ++ encode' a) (fun a => dom a ∧ dom' a)
      fun a b => same a b ∧ same' a b := by
  intro a b ha hb r r'
  rw [List.append_assoc, List.append_assoc, h ha.1 hb.1, h' ha.2 hb.2, and_assoc]

/-- A body that is unambiguous once its length is known, behind that length. -/
theorem counted {count : α → Nat} {body : α → List UInt8} (hcount : ∀ a, dom a → IsLength (count a))
    (hbody : ∀ a b, dom a → dom b → count a = count b →
      ∀ r r', body a ++ r = body b ++ r' ↔ same a b ∧ r = r')
    (hsame : ∀ a b, same a b → count a = count b) :
    Unambiguous (fun a => Canonical.length (count a) ++ body a) dom same := by
  intro a b ha hb r r'
  rw [List.append_assoc, List.append_assoc]
  constructor
  · intro h
    obtain ⟨hlen, hrest⟩ := List.append_inj h rfl
    have hn := (Sha256.bytes64_inj (hcount a ha) (hcount b hb)).mp hlen
    exact (hbody a b ha hb hn r r').mp hrest
  · intro h
    have hn := hsame a b h.1
    rw [(hbody a b ha hb hn r r').mpr h, hn]

theorem flatMap (h : Unambiguous encode dom same) {as bs : List α} (hlen : as.length = bs.length)
    (ha : ∀ a ∈ as, dom a) (hb : ∀ b ∈ bs, dom b) (r r' : List UInt8) :
    as.flatMap encode ++ r = bs.flatMap encode ++ r' ↔ List.Forall₂ same as bs ∧ r = r' := by
  induction as generalizing bs with
  | nil =>
    rw [List.eq_nil_of_length_eq_zero hlen.symm]
    simp
  | cons a as ih =>
    cases bs with
    | nil => cases hlen
    | cons b bs =>
      have ih := ih (Nat.succ.inj hlen) (fun x hx => ha x (List.mem_cons_of_mem a hx))
        (fun x hx => hb x (List.mem_cons_of_mem b hx))
      rw [List.flatMap_cons, List.flatMap_cons, List.append_assoc, List.append_assoc,
        h (ha a List.mem_cons_self) (hb b List.mem_cons_self), ih, List.forall₂_cons, and_assoc]

/-- **A list behind its length.** -/
theorem list (h : Unambiguous encode dom same) :
    Unambiguous (Canonical.list encode) (AllCountable dom) (List.Forall₂ same) :=
  counted (fun _ ha => ha.length)
    (fun _ _ ha hb hlen => h.flatMap hlen ha.entries hb.entries)
    (fun _ _ hs => hs.length_eq)

end Unambiguous

/-! ## The encoders -/

namespace Canonical

theorem unambiguous_text : Unambiguous text IsShort Eq :=
  Unambiguous.counted (fun s hs => (Text.length_utf8 s).symm ▸ hs)
    (fun s t _ _ hlen r r' => by
      rw [← Text.utf8_inj (s := s)]
      exact ⟨fun h => List.append_inj h hlen, fun h => congrArg₂ _ h.1 h.2⟩)
    (fun s t h => by rw [h])

theorem unambiguous_integer : Unambiguous integer IsInt64 Eq := by
  intro m n hm hn r r'
  have hlow : -9223372036854775808 ≤ m ∧ m < 9223372036854775808 := hm
  have hlow' : -9223372036854775808 ≤ n ∧ n < 9223372036854775808 := hn
  have htwo : (twoTo 64 : Int) = 18446744073709551616 := rfl
  have hinj : integer m = integer n ↔ m = n := by
    have hnat : ∀ k : Int, IsLength (k % 18446744073709551616).toNat := fun k => by
      show _ < 18446744073709551616
      omega
    rw [integer, integer, htwo, Sha256.bytes64_inj (hnat m) (hnat n)]
    omega
  rw [← hinj]
  exact ⟨fun h => List.append_inj h rfl, fun h => congrArg₂ _ h.1 h.2⟩

theorem unambiguous_amount :
    Unambiguous (fun d : Decimal => text d.normalize.text) (fun _ => True)
      fun a b => a.sameValue b = true :=
  (unambiguous_text.part fun d : Decimal => d.normalize.text).mono
    (fun d _ => d.normalize.isShort_text) fun _ _ => Decimal.sameValue_iff_text_normalize.symm

theorem unambiguous_price : Unambiguous price Price.Countable fun a b => a.same b = true := by
  have h := (unambiguous_text.part Price.currency).append (unambiguous_amount.part Price.amount)
  refine h.mono (fun p hp => ⟨hp, trivial⟩) fun a b => ?_
  rw [Price.same_iff]

theorem unambiguous_feature :
    Unambiguous feature (fun a => IsShort a.1 ∧ IsShort a.2) Eq :=
  ((unambiguous_text.part Prod.fst).append (unambiguous_text.part Prod.snd)).mono
    (fun _ ha => ha) fun _ _ => Prod.ext_iff.symm

theorem unambiguous_stock : Unambiguous stock Stock.Countable Eq := by
  have h := (unambiguous_text.part Stock.location).append (unambiguous_integer.part Stock.quantity)
  refine h.mono (fun _ hs => hs) fun a b => ?_
  cases a
  cases b
  rw [Stock.mk.injEq]

theorem unambiguous_variant : Unambiguous variant Variant.Countable Eq := by
  have h := (((unambiguous_text.part Variant.id).append (unambiguous_text.part Variant.sku)).append
    (unambiguous_feature.list.part fun v : Variant => v.attributes.entries)).append
      (unambiguous_stock.list.part Variant.stock)
  refine h.mono (fun v hv => ⟨⟨⟨hv.id, hv.sku⟩, hv.attributes⟩, hv.stock⟩) fun a b => ?_
  rcases a with ⟨id, sku, ⟨attributes, _⟩, stock⟩
  rcases b with ⟨id', sku', ⟨attributes', _⟩, stock'⟩
  simp only [List.forall₂_eq_eq_eq, Variant.mk.injEq, SortedTable.mk.injEq, and_assoc]

theorem unambiguous_listing : Unambiguous listing Listing.Countable Eq := by
  have h := (((unambiguous_text.part Listing.market).append
    (unambiguous_text.part Listing.title)).append
      (unambiguous_text.part Listing.description)).append (unambiguous_text.part Listing.keywords)
  refine h.mono (fun l hl => ⟨⟨⟨hl.market, hl.title⟩, hl.description⟩, hl.keywords⟩) fun a b => ?_
  cases a
  cases b
  simp only [Listing.mk.injEq, and_assoc]

end Canonical

/-! ## Products -/

open Canonical in
/-- **The canonical bytes of a product** tell identity, version and content apart. -/
theorem Product.unambiguous_canonicalBytes :
    Unambiguous canonicalBytes Product.Countable fun p q =>
      p.id = q.id ∧ p.version = q.version ∧ p.content.same q.content = true := by
  have h := (((((((unambiguous_text.part Product.id).append
    (unambiguous_text.part fun p : Product => p.content.sku)).append
    (unambiguous_text.part fun p : Product => p.content.title)).append
    (unambiguous_text.part fun p : Product => p.content.description)).append
    (unambiguous_price.list.part fun p : Product => p.content.prices)).append
    (unambiguous_variant.list.part fun p : Product => p.content.variants)).append
    (unambiguous_listing.list.part fun p : Product => p.content.listings)).append
    (unambiguous_integer.part Product.version)
  refine h.mono (fun p hp => ?_) fun p q => ?_
  · have hc := hp.content
    exact ⟨⟨⟨⟨⟨⟨⟨hp.id, hc.sku⟩, hc.title⟩, hc.description⟩, hc.prices⟩, hc.variants⟩,
      hc.listings⟩, hp.version⟩
  · simp only [Content.same_iff, samePrices_iff, List.forall₂_eq_eq_eq]
    tauto

/-- **The canonical bytes agree with the differences**: those of two products are equal exactly if
the products have one identity and one version and no field of their contents is reported as
changed, which means that the contents are the same up to the scale of amounts. -/
theorem Product.canonicalBytes_eq_iff {p q : Product} (hp : p.Countable) (hq : q.Countable) :
    (p.canonicalBytes = q.canonicalBytes ↔
      p.id = q.id ∧ p.version = q.version ∧ p.content.changesTo q.content = []) ∧
    (p.content.changesTo q.content = [] ↔ p.content.same q.content = true) := by
  have h := Product.unambiguous_canonicalBytes hp hq [] []
  rw [List.append_nil, List.append_nil] at h
  rw [h, Content.changesTo_eq_nil_iff]
  simp

/-- The scale of an amount does not count, a letter of a location does. -/
theorem Product.canonicalBytes_sample :
    (sample 899 0 "wh-1").canonicalBytes = (sample 89900 2 "wh-1").canonicalBytes ∧
      (sample 899 0 "wh-1").canonicalBytes ≠ (sample 899 0 "wh-2").canonicalBytes := by
  constructor
  · obtain ⟨hbytes, hchanges⟩ := canonicalBytes_eq_iff
      (p := sample 899 0 "wh-1") (q := sample 89900 2 "wh-1") (by decide) (by decide)
    exact hbytes.mpr ⟨rfl, rfl, hchanges.mpr (by decide)⟩
  · obtain ⟨hbytes, hchanges⟩ := canonicalBytes_eq_iff
      (p := sample 899 0 "wh-1") (q := sample 899 0 "wh-2") (by decide) (by decide)
    intro h
    exact absurd (hchanges.mp (hbytes.mp h).2.2) (by decide)

end CatalogChain
