import DesignTokens.Fault
import DesignTokens.Selector.Customizer
import DesignTokens.Sorted
import DesignTokens.Text.Surrogate

/-!
Composing selectors of fragments.

The fragments of a theme, of states and of contexts on the theme's own element form one compound;
fragments of contexts inside it form a second compound below the first. Within a compound the
fragments are sorted, so that their order does not matter. `:root` is left out of a compound unless
it stands alone.
-/

namespace DesignTokens.Selector

/-- A compound of fragments, in sorted order. -/
def compound (fragments : List String) : String :=
  String.join (sorted Text.precedes fragments)

/-- The selector of a compound and, if there are any, of fragments below it. -/
def compose (outer inner : List String) : String :=
  if outer = [":root"] ∧ inner = [] then ":root"
  else
    let front := compound (outer.filter (· != ":root"))
    Text.strip (if inner.isEmpty then front else front ++ " " ++ compound inner)

/-- What a rule's selector is made of, as themes give it. -/
structure Fragments where
  outer : List Value
  inner : List Value := []

/-- Fragments must be texts. -/
def fragmentTexts (fragments : List Value) : Except Fault (List String) :=
  fragments.mapM fun v => match v.text? with
    | some s => .ok s
    | none => .error .wrongKind

/-- The customized selector of the given fragments. -/
def Fragments.selector (f : Fragments) (customizer : Customizer) : Except Fault String := do
  return customizer (compose (← fragmentTexts f.outer) (← fragmentTexts f.inner))

end DesignTokens.Selector
