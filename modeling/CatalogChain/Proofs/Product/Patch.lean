import CatalogChain.Proofs.Product.Codec
import CatalogChain.Proofs.Product.Same

/-!
# Changes as patches

The changes from one content to another are a patch.  Written into the first content, or into any
of its meaning, their new values lead to the second one (`leads_changesTo`), and their old values
lead back (`Content.unpatch_changesTo`), up to the scale and the sign of amounts.  Each field is
written on its own: either it has changed, and the value that is written reads back as what it
was made from, or it is the same already (`leads_between`).
-/

namespace CatalogChain

open FieldChange (between)

/-! ## Patches -/

namespace Content

/-- **Content with the new values of changes** written into it, one after the other. -/
def patch (c : Content) (changes : List FieldChange) : Reading Content :=
  changes.foldlM (fun c change => change.applyNew c) c

/-- **Content with the old values of changes** written into it. -/
def unpatch (c : Content) (changes : List FieldChange) : Reading Content :=
  changes.foldlM (fun c change => change.applyOld c) c

theorem patch_append (c : Content) (xs ys : List FieldChange) :
    c.patch (xs ++ ys) = c.patch xs >>= fun c => c.patch ys := List.foldlM_append

theorem unpatch_append (c : Content) (xs ys : List FieldChange) :
    c.unpatch (xs ++ ys) = c.unpatch xs >>= fun c => c.unpatch ys := List.foldlM_append

end Content

/-- **Changes lead from one content to another**: whatever is the same as the first becomes the same
as the second when they are written into it. -/
def Leads (changes : List FieldChange) (a b : Content) : Prop :=
  ∀ c : Content, c.same a = true → ∃ c', c.patch changes = .ok c' ∧ c'.same b = true

theorem Leads.append {xs ys : List FieldChange} {a b c : Content} (h : Leads xs a b)
    (h' : Leads ys b c) : Leads (xs ++ ys) a c := by
  intro d hd
  obtain ⟨d', hxs, hd'⟩ := h d hd
  obtain ⟨d'', hys, hd''⟩ := h' d' hd'
  refine ⟨d'', ?_, hd''⟩
  rw [Content.patch_append, hxs]
  exact hys

/-- **The change of one field** leads to what its new value reads back as. -/
theorem leads_between {field : String} {same : Bool} {old new : Json} {a b : Content}
    (hsame : same = true → a.same b = true)
    (hwrite : ∀ c : Content, c.same a = true →
      ∃ c', c.withField field new = .ok c' ∧ c'.same b = true) :
    Leads (between field same old new) a b := by
  intro c hc
  cases same with
  | true => exact ⟨c, rfl, Content.same_trans hc (hsame rfl)⟩
  | false =>
    obtain ⟨c', hc', hb⟩ := hwrite c hc
    refine ⟨c', ?_, hb⟩
    show c.withField field new >>= Except.ok = _
    rw [hc']
    rfl

/-! ## The changes from one content to another -/

theorem samePrices_plain (ps : List Price) : samePrices (ps.map Price.plain) ps = true := by
  rw [samePrices_iff, List.forall₂_map_left_iff]
  exact List.forall₂_same.mpr fun p _ => p.same_plain

/-- The change of a field that is compared by equality. -/
theorem leads_equal {α : Type} [DecidableEq α] {field : String} {old new : Json} {x : α}
    {a : Content} (get : Content → α) (set : Content → α → Content)
    (hget : ∀ c, set c (get c) = c)
    (hset : ∀ c, c.same a = true → (set c x).same (set a x) = true)
    (hwrite : ∀ c : Content, c.withField field new = .ok (set c x)) :
    Leads (between field (get a = x) old new) a (set a x) := by
  refine leads_between (fun h => ?_) fun c hc => ⟨set c x, hwrite c, hset c hc⟩
  have hx : set a x = a := by rw [← of_decide_eq_true h, hget]
  rw [hx]
  exact a.same_refl

section Fields
variable (a : Content)

theorem leads_sku (s : String) :
    Leads (between "sku" (a.sku = s) (.string a.sku) (.string s)) a { a with sku := s } := by
  refine leads_equal Content.sku (fun c s => { c with sku := s }) (fun _ => rfl) ?_ fun _ => rfl
  simp +contextual [Content.same_iff]

theorem leads_title (s : String) :
    Leads (between "base_title" (a.title = s) (.string a.title) (.string s)) a
      { a with title := s } := by
  refine leads_equal Content.title (fun c s => { c with title := s }) (fun _ => rfl) ?_
    fun _ => rfl
  simp +contextual [Content.same_iff]

theorem leads_description (s : String) :
    Leads (between "description" (a.description = s) (.string a.description) (.string s)) a
      { a with description := s } := by
  refine leads_equal Content.description (fun c s => { c with description := s }) (fun _ => rfl) ?_
    fun _ => rfl
  simp +contextual [Content.same_iff]

/-- Prices are compared by value, and read back without the sign of a zero. -/
theorem leads_prices (ps : List Price) :
    Leads (between "prices" (samePrices a.prices ps) (.list Price.toJson a.prices)
      (.list Price.toJson ps)) a { a with prices := ps } := by
  refine leads_between (fun h => ?_) fun c hc => ⟨{ c with prices := ps.map Price.plain }, ?_, ?_⟩
  · exact Content.same_iff.mpr ⟨rfl, rfl, rfl, h, rfl, rfl⟩
  · show (fun ps => { c with prices := ps }) <$> Outline.readList Price.read _ = _
    rw [readPrices_list]
    rfl
  · rw [Content.same_iff] at hc ⊢
    exact ⟨hc.1, hc.2.1, hc.2.2.1, samePrices_plain ps, hc.2.2.2.2⟩

theorem leads_variants {vs : List Variant} (hvs : ∀ v ∈ vs, v.InRange) :
    Leads (between "variants" (a.variants = vs) (.list Variant.toJson a.variants)
      (.list Variant.toJson vs)) a { a with variants := vs } := by
  refine leads_equal Content.variants (fun c vs => { c with variants := vs }) (fun _ => rfl) ?_
    fun c => ?_
  · simp +contextual [Content.same_iff]
  · show (fun vs => { c with variants := vs }) <$> Outline.readList Variant.read _ = _
    rw [readVariants_list hvs]
    rfl

theorem leads_listings (ls : List Listing) :
    Leads (between "metadata" (a.listings = ls) (.list Listing.toJson a.listings)
      (.list Listing.toJson ls)) a { a with listings := ls } := by
  refine leads_equal Content.listings (fun c ls => { c with listings := ls }) (fun _ => rfl) ?_
    fun c => ?_
  · simp +contextual [Content.same_iff]
  · show (fun ls => { c with listings := ls }) <$> Outline.readList Listing.read _ = _
    rw [readListings_list]
    rfl

end Fields

/-- **The changes to a content lead to it.** -/
theorem leads_changesTo {old new : Content} (hnew : new.InRange) :
    Leads (old.changesTo new) old new :=
  (((((leads_sku old new.sku).append
    (leads_title _ new.title)).append
    (leads_description _ new.description)).append
    (leads_prices _ new.prices)).append
    (leads_variants _ hnew)).append
    (leads_listings _ new.listings)

namespace Content

/-- The changes back are the changes read backwards. -/
theorem unpatch_changesTo (c old new : Content) :
    c.unpatch (old.changesTo new) = c.patch (new.changesTo old) := by
  have hbetween : ∀ (c : Content) (field : String) (same same' : Bool) (x y : Json),
      same = same' → c.unpatch (between field same x y) =
        c.patch (between field same' y x) := by
    rintro c field same _ x y rfl
    cases same <;> rfl
  have heq : ∀ {α : Type} [DecidableEq α] (x y : α), decide (x = y) = decide (y = x) :=
    fun x y => decide_eq_decide.mpr eq_comm
  have hprices : samePrices old.prices new.prices = samePrices new.prices old.prices :=
    Bool.eq_iff_iff.mpr ⟨samePrices_symm, samePrices_symm⟩
  unfold changesTo
  simp only [unpatch_append, patch_append]
  simp only [hbetween _ _ _ _ _ _ (heq _ _), hbetween _ _ _ _ _ _ hprices]

end Content

/-- **Changes are patches in both directions**: their new values lead from the old content to the
new one, and their old values back. -/
structure Content.Patches (old new : Content) : Prop where
  forward : ∃ c, old.patch (old.changesTo new) = .ok c ∧ c.same new = true
  backward : ∃ c, new.unpatch (old.changesTo new) = .ok c ∧ c.same old = true

theorem Content.patches {old new : Content} (hold : old.InRange) (hnew : new.InRange) :
    old.Patches new where
  forward := leads_changesTo hnew old old.same_refl
  backward := by
    rw [unpatch_changesTo]
    exact leads_changesTo hold new new.same_refl

end CatalogChain
