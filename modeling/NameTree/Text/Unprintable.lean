/-!
Code points that are written as an escape instead of as themselves: controls, format characters,
private use, separators other than the plain space, and noncharacters.
-/

namespace NameTree.Text

/-- Inclusive ranges of the general categories Cc, Cf, Co, Zl, Zp and of Zs without U+0020. -/
def unprintableRanges : List (Nat × Nat) :=
  [(0x00, 0x1F), (0x7F, 0xA0), (0xAD, 0xAD), (0x600, 0x605), (0x61C, 0x61C), (0x6DD, 0x6DD),
   (0x70F, 0x70F), (0x890, 0x891), (0x8E2, 0x8E2), (0x1680, 0x1680), (0x180E, 0x180E),
   (0x2000, 0x200F), (0x2028, 0x202F), (0x205F, 0x2064), (0x2066, 0x206F), (0x3000, 0x3000),
   (0xE000, 0xF8FF), (0xFDD0, 0xFDEF), (0xFEFF, 0xFEFF), (0xFFF9, 0xFFFB), (0x110BD, 0x110BD),
   (0x110CD, 0x110CD), (0x13430, 0x1343F), (0x1BCA0, 0x1BCA3), (0x1D173, 0x1D17A),
   (0xE0001, 0xE0001), (0xE0020, 0xE007F), (0xF0000, 0xFFFFD), (0x100000, 0x10FFFD)]

/-- The last two code points of every plane are noncharacters. -/
def isPlaneEnd (code : Nat) : Bool := 0xFFFE ≤ code % 0x10000

def isUnprintable (c : Char) : Bool :=
  isPlaneEnd c.toNat ||
    unprintableRanges.any (fun range => decide (range.1 ≤ c.toNat ∧ c.toNat ≤ range.2))

end NameTree.Text
