/-!
# Blank characters

A text counts as empty when it holds nothing but blank characters.  Blank means the Unicode property
`White_Space`: twenty-five code points in ten ranges, tabulated in `blankRanges`.  Zero-width
characters such as U+200B and U+FEFF are not blank.
-/

namespace CatalogChain.Text

/-- **The blank code points**, as inclusive ranges in ascending order. -/
def blankRanges : List (Nat × Nat) :=
  [(0x9, 0xD), (0x20, 0x20), (0x85, 0x85), (0xA0, 0xA0), (0x1680, 0x1680), (0x2000, 0x200A),
    (0x2028, 0x2029), (0x202F, 0x202F), (0x205F, 0x205F), (0x3000, 0x3000)]

/-- Whether a character lies in one of the blank ranges. -/
def isBlank (c : Char) : Bool :=
  blankRanges.any fun range => range.1 ≤ c.toNat && c.toNat ≤ range.2

/-- Whether a text has no character that is not blank. -/
def allBlank (s : String) : Bool := s.toList.all isBlank

/-- Drops the blanks in front. -/
def trimStart (cs : List Char) : List Char := cs.dropWhile isBlank

/-- Drops the blanks at both ends. -/
def trim (cs : List Char) : List Char :=
  (trimStart (trimStart cs).reverse).reverse

theorem allBlank_eq_false_iff {s : String} :
    allBlank s = false ↔ ∃ c ∈ s.toList, isBlank c = false := by
  simp [allBlank]

end CatalogChain.Text
