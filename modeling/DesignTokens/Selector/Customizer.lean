import DesignTokens.Selector.Specificity

/-!
Customizers: the last step in making a selector. One raises its specificity or leaves it alone;
around it a namespace puts every selector that is not page-wide under an ancestor.
-/

namespace DesignTokens

abbrev Customizer := String → String

namespace Customizer

/-- Boosts what is neither page-wide, nor exported, nor boosted already. -/
def single : Customizer := fun selector =>
  let cs := selector.toList
  if Text.occursIn ":root".toList cs || Text.occursIn ":export".toList cs ||
      selector == "html" || selector == "body" || Selector.isBoosted selector then selector
  else Selector.boost selector

/-- Boosts the selectors of secondary themes above that of the primary one. -/
def multi (root : String) : Customizer := fun selector =>
  if selector == root then Selector.boostGradually selector
  else Selector.boost (Selector.boostGradually selector)

/-- Repeats the first class of what is neither page-wide nor exported. -/
def gradual : Customizer := fun selector =>
  if Selector.isGlobal selector || Text.occursIn ":export".toList selector.toList then selector
  else Selector.boostGradually selector

/-- One member of a list of selectors, under a namespace unless it is page-wide. -/
def underNamespace (space : String) (member : List Char) : String :=
  let text := String.ofList (Text.stripBy Text.isBlank member)
  if (Text.dropFront? ":root".toList text.toList).isSome || text == "html" || text == "body" then
    text
  else space ++ " " ++ text

/-- Puts selectors under a namespace before they are customized; an empty one changes nothing. -/
def namespaced (inner : Customizer) (space : String) : Customizer :=
  if space == "" then inner
  else fun selector =>
    inner (Text.joinWith ", " ((Text.splitAt ',' selector.toList).map (underNamespace space)))

end Customizer

end DesignTokens
