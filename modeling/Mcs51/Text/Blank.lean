/-
  Mcs51.Text.Blank — white space.

  Main definition:
    * `isBlank` : is a character white space.
-/
namespace Mcs51.Text

/-- The code points of white space: first and last of each range. -/
def blankRanges : List (Nat × Nat) :=
  [(0x9, 0xD), (0x1C, 0x20), (0x85, 0x85), (0xA0, 0xA0), (0x1680, 0x1680), (0x2000, 0x200A),
   (0x2028, 0x2029), (0x202F, 0x202F), (0x205F, 0x205F), (0x3000, 0x3000)]

/-- Is the character white space?  The separators of every script count, not only the blank and the
control characters. -/
def isBlank (c : Char) : Bool :=
  blankRanges.any fun range => range.1 ≤ c.toNat && c.toNat ≤ range.2

end Mcs51.Text
