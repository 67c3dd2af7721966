import DesignTokens.Text.Blank
import DesignTokens.Text.Search
import DesignTokens.Text.Word

/-!
Raising the specificity of selectors without changing what they match, so that generated rules win
over rules of a page's components.

There are two ways. A no-op negation counts as an id; it goes in front of the first pseudo-class. Or
the first class or pseudo-class of a selector is repeated.
-/

namespace DesignTokens.Selector

/-- A negation that every element satisfies; it counts as much as an id. -/
def booster : String := ":not(#\\9)"

/-- The selectors of the page as a whole. -/
def globals : List String := [":root", "body", "html"]

def isGlobal (selector : String) : Bool := globals.contains selector

/-- Puts the booster in front of the first colon, or at the end. -/
def boostChars (cs : List Char) : List Char :=
  cs.takeWhile (· != ':') ++ booster.toList ++ cs.dropWhile (· != ':')

def boost (selector : String) : String := String.ofList (boostChars selector.toList)

def isBoosted (selector : String) : Bool := Text.occursIn booster.toList selector.toList

/-- A character of a name. -/
def isNameChar (c : Char) : Bool := c == '-' || Text.isWord c

/-- What precedes the first class or pseudo-class of a selector, that simple selector, and what
follows. -/
def firstSimple? : List Char → Option (List Char × List Char × List Char)
  | [] => none
  | c :: cs =>
    let name := cs.takeWhile isNameChar
    if (c == ':' || c == '.') && !name.isEmpty then
      some ([], c :: name, cs.dropWhile isNameChar)
    else (firstSimple? cs).map fun (before, simple, rest) => (c :: before, simple, rest)

/-- Repeats the first class or pseudo-class; a selector without one is boosted. -/
def repeatFirst (cs : List Char) : List Char :=
  match firstSimple? cs with
  | some (before, simple, rest) => before ++ simple ++ simple ++ rest
  | none => boostChars cs

/-- Raises every member of a comma-separated list of selectors. -/
def boostGradually (selectors : String) : String :=
  let members := (Text.splitAt ',' selectors.toList).map fun cs => String.ofList (repeatFirst cs)
  Text.joinWith "," members

/-- The selector, boosters aside, is one for the page as a whole, perhaps repeated. -/
def isPageWide (selector : String) : Bool :=
  let bare := Text.strip (String.ofList (Text.removeAll booster.toList selector.toList))
  globals.any (fun g => bare == g ++ g) || isGlobal bare

end DesignTokens.Selector
