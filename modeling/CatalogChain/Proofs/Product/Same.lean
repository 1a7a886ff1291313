import CatalogChain.Product.Diff
import CatalogChain.Proofs.Decimal.Normal
import Mathlib.Data.List.Forall2

/-!
# Contents of one meaning

Contents are the same (`Content.same`) if their texts, variants and listings are equal and their
prices are of one value entry by entry.  This is an equivalence, and two contents are the same
exactly if no change leads from one to the other (`Content.changesTo_eq_nil_iff`).
-/

namespace CatalogChain

/-! ## Prices -/

namespace Price

theorem same_iff {p q : Price} :
    p.same q = true ↔ p.currency = q.currency ∧ p.amount.sameValue q.amount = true := by
  rw [same, Bool.and_eq_true, decide_eq_true_iff]

theorem same_refl (p : Price) : p.same p = true := same_iff.mpr ⟨rfl, p.amount.sameValue_refl⟩

theorem same_symm {p q : Price} (h : p.same q = true) : q.same p = true := by
  obtain ⟨hc, ha⟩ := same_iff.mp h
  exact same_iff.mpr ⟨hc.symm, Decimal.sameValue_comm p.amount q.amount ▸ ha⟩

theorem same_trans {p q r : Price} (h : p.same q = true) (h' : q.same r = true) :
    p.same r = true := by
  obtain ⟨hc, ha⟩ := same_iff.mp h
  obtain ⟨hc', ha'⟩ := same_iff.mp h'
  exact same_iff.mpr ⟨hc.trans hc', Decimal.sameValue_trans ha ha'⟩

end Price

theorem samePrices_iff {as bs : List Price} :
    samePrices as bs = true ↔ List.Forall₂ (fun a b => a.same b = true) as bs := by
  induction as generalizing bs with
  | nil => cases bs <;> simp [samePrices]
  | cons a as ih =>
    cases bs with
    | nil => simp [samePrices]
    | cons b bs =>
      rw [List.forall₂_cons, ← ih]
      exact Bool.and_eq_true_iff

theorem samePrices_refl (ps : List Price) : samePrices ps ps = true :=
  samePrices_iff.mpr (List.forall₂_same.mpr fun p _ => p.same_refl)

theorem samePrices_symm {as bs : List Price} (h : samePrices as bs = true) :
    samePrices bs as = true :=
  samePrices_iff.mpr ((samePrices_iff.mp h).flip.imp fun _ _ => Price.same_symm)

theorem samePrices_trans {as bs cs : List Price} (h : samePrices as bs = true)
    (h' : samePrices bs cs = true) : samePrices as cs = true := by
  rw [samePrices_iff] at *
  induction h generalizing cs with
  | nil => exact h'
  | cons hab _ ih =>
    cases h' with
    | cons hbc hrest => exact .cons (Price.same_trans hab hbc) (ih hrest)

/-! ## Contents -/

namespace Content

theorem same_iff {a b : Content} :
    a.same b = true ↔ a.sku = b.sku ∧ a.title = b.title ∧ a.description = b.description ∧
      samePrices a.prices b.prices = true ∧ a.variants = b.variants ∧
      a.listings = b.listings := by
  simp [same, and_assoc]

theorem same_refl (c : Content) : c.same c = true :=
  same_iff.mpr ⟨rfl, rfl, rfl, samePrices_refl c.prices, rfl, rfl⟩

theorem same_trans {a b c : Content} (h : a.same b = true) (h' : b.same c = true) :
    a.same c = true := by
  obtain ⟨h1, h2, h3, h4, h5, h6⟩ := same_iff.mp h
  obtain ⟨h1', h2', h3', h4', h5', h6'⟩ := same_iff.mp h'
  exact same_iff.mpr ⟨h1.trans h1', h2.trans h2', h3.trans h3', samePrices_trans h4 h4',
    h5.trans h5', h6.trans h6'⟩

end Content

/-! ## Changes -/

theorem FieldChange.between_eq_nil_iff {field : String} {same : Bool} {old new : Json} :
    between field same old new = [] ↔ same = true := by
  cases same <;> simp [between]

/-- **Contents without a change between them are the same.** -/
theorem Content.changesTo_eq_nil_iff {a b : Content} :
    a.changesTo b = [] ↔ a.same b = true := by
  simp [Content.changesTo, FieldChange.between_eq_nil_iff, Content.same, and_assoc]

end CatalogChain
