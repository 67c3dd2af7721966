import DesignTokens.Text.Blank
import DesignTokens.Text.Digit
import DesignTokens.Text.Search

/-!
Whole numbers in texts: perhaps a sign, then digits of any script, with single underscores allowed
between digits, all between blanks. The four ASCII separators do not count as blanks here. Numbers
of very many digits are not read.
-/

namespace DesignTokens.Text

/-- A blank that may stand around a number. -/
def isNumberBlank (c : Char) : Bool := isBlank c && !(0x1c ≤ c.toNat && c.toNat ≤ 0x1f)

/-- How many digits a whole number may have. -/
def maxDigits : Nat := 4300

/-- The number that digits in groups denote. -/
def groupedDigits? (cs : List Char) : Option Nat :=
  let groups := splitAt '_' cs
  if (groups.all fun g => !g.isEmpty && g.all isDigit) && groups.flatten.length ≤ maxDigits then
    some (digitsValue groups.flatten)
  else none

/-- The whole number that a text denotes. -/
def integer? (s : String) : Option Int :=
  match stripBy isNumberBlank s.toList with
  | '-' :: cs => (groupedDigits? cs).map fun n => -(n : Int)
  | '+' :: cs => (groupedDigits? cs).map fun n => (n : Int)
  | cs => (groupedDigits? cs).map fun n => (n : Int)

end DesignTokens.Text
