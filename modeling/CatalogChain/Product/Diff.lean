import CatalogChain.Product.Codec

/-!
# Differences

`Content.changesTo` lists the fields in which two contents differ, each with its old and its new
value in JSON.  `FieldChange.applyNew` and `FieldChange.applyOld` write such a value back into the
field.
-/

namespace CatalogChain

/-- **A change of one field**: its name and its values before and after. -/
structure FieldChange where
  name : String
  oldValue : Option Json
  newValue : Json
deriving Inhabited

/-- The change of a field, unless it stays the same. -/
def FieldChange.between (field : String) (same : Bool) (old new : Json) : List FieldChange :=
  if same then [] else [⟨field, some old, new⟩]

/-- **The changes from one content to another**, one for each field that differs in meaning. -/
def Content.changesTo (old new : Content) : List FieldChange :=
  FieldChange.between "sku" (old.sku = new.sku) (.string old.sku) (.string new.sku) ++
  FieldChange.between "base_title" (old.title = new.title) (.string old.title)
    (.string new.title) ++
  FieldChange.between "description" (old.description = new.description)
    (.string old.description) (.string new.description) ++
  FieldChange.between "prices" (samePrices old.prices new.prices)
    (.list Price.toJson old.prices) (.list Price.toJson new.prices) ++
  FieldChange.between "variants" (old.variants = new.variants)
    (.list Variant.toJson old.variants) (.list Variant.toJson new.variants) ++
  FieldChange.between "metadata" (old.listings = new.listings)
    (.list Listing.toJson old.listings) (.list Listing.toJson new.listings)

/-! ## Writing changes back -/

/-- Content with the value of one field replaced. -/
def Content.withField (c : Content) (field : String) (value : Json) : Reading Content :=
  let o := Outline.ofJson value
  if field = "sku" then (fun s => { c with sku := s }) <$> o.readText
  else if field = "base_title" then (fun s => { c with title := s }) <$> o.readText
  else if field = "description" then (fun s => { c with description := s }) <$> o.readText
  else if field = "prices" then (fun ps => { c with prices := ps }) <$> o.readList Price.read
  else if field = "variants" then (fun vs => { c with variants := vs }) <$> o.readList Variant.read
  else if field = "metadata" then (fun ls => { c with listings := ls }) <$> o.readList Listing.read
  else .error .mistyped

/-- Writes the new value of a change into its field. -/
def FieldChange.applyNew (change : FieldChange) (c : Content) : Reading Content :=
  c.withField change.name change.newValue

/-- Writes the old value of a change into its field; a missing one changes nothing. -/
def FieldChange.applyOld (change : FieldChange) (c : Content) : Reading Content :=
  match change.oldValue with
  | none => .ok c
  | some value => c.withField change.name value

end CatalogChain
