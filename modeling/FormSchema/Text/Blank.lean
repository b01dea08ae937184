/-!
# Blank characters

The characters with the Unicode property of white space.
-/

namespace FormSchema.Text

/-- The ranges of white-space characters, both ends included. -/
def blankRanges : List (Nat × Nat) :=
  [(0x09, 0x0D), (0x20, 0x20), (0x85, 0x85), (0xA0, 0xA0), (0x1680, 0x1680),
    (0x2000, 0x200A), (0x2028, 0x2029), (0x202F, 0x202F), (0x205F, 0x205F), (0x3000, 0x3000)]

/-- Is the character white space? -/
def isBlank (c : Char) : Bool :=
  blankRanges.any fun range => range.1 ≤ c.toNat && c.toNat ≤ range.2

/-- Is there nothing but white space? -/
def allBlank (text : List Char) : Bool :=
  text.all isBlank

end FormSchema.Text
