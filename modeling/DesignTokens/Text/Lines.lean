import DesignTokens.Text.Blank

/-!
Lines of texts. Every kind of line break is read as a line feed; a list of lines may be parted by
any character that ends a line.
-/

namespace DesignTokens.Text

/-- Line breaks of every system as line feeds. -/
def unifyBreaks : List Char → List Char
  | [] => []
  | '\r' :: '\n' :: cs => '\n' :: unifyBreaks cs
  | '\r' :: cs => '\n' :: unifyBreaks cs
  | c :: cs => c :: unifyBreaks cs

theorem carriageReturn_notMem_unifyBreaks (cs : List Char) : '\r' ∉ unifyBreaks cs := by
  fun_induction unifyBreaks cs with
  | case1 => simp
  | case2 cs ih => simp [ih]
  | case3 cs _ ih => simp [ih]
  | case4 c cs hne _ ih => simp_all [eq_comm]

/-- A character that ends a line. -/
def endsLine (c : Char) : Bool :=
  ['\n', '\r', '\x0b', '\x0c', '\x1c', '\x1d', '\x1e', '\x85', '\u2028', '\u2029'].contains c

/-- The pieces between line ends. -/
def pieces : List Char → List (List Char)
  | [] => [[]]
  | c :: cs =>
    if endsLine c then [] :: pieces cs
    else match pieces cs with
      | piece :: rest => (c :: piece) :: rest
      | [] => [[c]]

/-- The lines of a text that are not blank, without blanks at their ends. -/
def filledLines (s : String) : List String :=
  ((pieces s.toList).map fun cs => String.ofList (stripBy isBlank cs)).filter (· != "")

end DesignTokens.Text
