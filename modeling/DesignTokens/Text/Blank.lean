import DesignTokens.Text.Range

/-!
White space: the characters of bidirectional class `WS`, `B` or `S` or of general category `Zs`.
Beside the Unicode spaces these are the four ASCII separators U+001C to U+001F.
-/

namespace DesignTokens.Text

/-- The ranges of blank characters. -/
def blankRanges : List (Nat × Nat) := [
    (0x9, 0xd), (0x1c, 0x20), (0x85, 0x85), (0xa0, 0xa0), (0x1680, 0x1680), (0x2000, 0x200a),
    (0x2028, 0x2029), (0x202f, 0x202f), (0x205f, 0x205f), (0x3000, 0x3000)]

/-- A blank character. -/
def isBlank (c : Char) : Bool := inRanges blankRanges c

/-- Drops the characters of a class from both ends. -/
def stripBy (p : Char → Bool) (cs : List Char) : List Char :=
  ((cs.dropWhile p).reverse.dropWhile p).reverse

/-- Drops blanks from both ends of a text. -/
def strip (s : String) : String := String.ofList (stripBy isBlank s.toList)

end DesignTokens.Text
