import DesignTokens.Text.Search

/-!
The custom property that a declaration's text refers to: the first `var(--name)` in it, where the
name runs to the next closing parenthesis and has at least one character.
-/

namespace DesignTokens

/-- The property named at the front of a text. -/
def varAtFront? (cs : List Char) : Option (List Char) := do
  let rest ← Text.dropFront? "var(--".toList cs
  let name := rest.takeWhile (· != ')')
  if name.isEmpty || name.length == rest.length then none else some ('-' :: '-' :: name)

/-- The first property named anywhere in a text. -/
def firstVarChars? : List Char → Option (List Char)
  | [] => none
  | c :: cs => (varAtFront? (c :: cs)).or (firstVarChars? cs)

/-- The first property that a text refers to. -/
def firstVar? (text : String) : Option String := (firstVarChars? text.toList).map String.ofList

end DesignTokens
