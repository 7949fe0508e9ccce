/-!
# Blank characters

The characters with the Unicode property `White_Space`, and the texts made of them alone.
-/

namespace CampusQuery.Text

/-- The ranges of code points with the property `White_Space`, 25 code points in all. -/
def blankRanges : List (Nat × Nat) :=
  [(0x09, 0x0D), (0x20, 0x20), (0x85, 0x85), (0xA0, 0xA0), (0x1680, 0x1680), (0x2000, 0x200A),
    (0x2028, 0x2029), (0x202F, 0x202F), (0x205F, 0x205F), (0x3000, 0x3000)]

def isBlankChar (c : Char) : Bool :=
  blankRanges.any fun (first, last) => first ≤ c.toNat ∧ c.toNat ≤ last

/-- A text without any other character; the empty text is one. -/
def isBlank (s : String) : Bool := s.toList.all isBlankChar

end CampusQuery.Text
