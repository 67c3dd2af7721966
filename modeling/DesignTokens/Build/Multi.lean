import DesignTokens.Build.Single

/-!
The stylesheet of several themes.

At most one theme, the primary, may have a page-wide selector. The rules of the others then inherit
from the primary's rules for the page, for the same state and for the same context. Without a
primary the themes do not meet, and their stylesheets are put together.
-/

namespace DesignTokens

open Selector (Fragments)

variable {N : Type} [Add N] [Sub N] [Mul N] [Div N] [LE N] [LT N] [DecidableLE N] [DecidableLT N]
  [OfScientific N] (space : ColorSpace N)

/-- Appends the rules of another sheet, in its order and with their paths. -/
def Stylesheet.absorb (s t : Stylesheet) : Stylesheet :=
  let offset := s.rules.length
  t.placed.values.foldl
    (fun s p => s.append (p.rule + offset) (p.path.map (· + offset)))
    { s with rules := s.rules ++ t.rules }

/-- The theme has a page-wide selector. -/
def Theme.isGlobal (t : Theme) : Bool := t.selector.text?.any Selector.isGlobal

/-- What the rules of a secondary theme are made from. -/
structure SecondaryBuild where
  maker : RuleMaker
  primary : Theme
  theme : Theme
  options : ResolveOptions
  resolution : Resolution

namespace SecondaryBuild

/-- The rules that all rules of a secondary theme inherit from: the primary's and its own. -/
structure Roots where
  parent : Option RuleId
  own : Option RuleId

def valuesIn (b : SecondaryBuild) (c : Context) (p : Projection) : Except Fault Projected :=
  b.theme.contextValues c none none b.options p

/-- Adds the theme's own rule. -/
def addRoot (b : SecondaryBuild) (s : Stylesheet) (values : Projected) :
    Except Fault (Stylesheet × Roots) := do
  let parent ← b.maker.find? s ⟨[b.primary.selector], []⟩
  let rule ← b.maker.make ⟨[b.theme.selector], []⟩ .null values
  let (s, own) := s.add rule [parent]
  return (s, ⟨parent, own⟩)

/-- Adds the rule of an optional state. -/
def addState (b : SecondaryBuild) (roots : Roots) (s : Stylesheet) (state : OptionalState) :
    Except Fault Stylesheet := do
  let values ← b.resolution.project b.theme state.projection
  let rule ← b.maker.make ⟨[b.theme.selector, state.selector], []⟩ state.media values
  let parentState ← b.maker.find? s ⟨[b.primary.selector, state.selector], []⟩
  return (s.add rule [roots.parent, parentState, roots.own]).1

/-- Adds the rules of a context inside the theme's element and on it. -/
def addContext (b : SecondaryBuild) (roots : Roots) (s : Stylesheet) (c : Context) :
    Except Fault Stylesheet := do
  let values ← b.valuesIn c .defaults
  let parentContext ← b.maker.find? s ⟨[b.primary.selector], [c.selector]⟩
  let inside ← b.maker.make ⟨[b.theme.selector], [c.selector]⟩ .null values
  let (s, _) := s.add inside [roots.parent, roots.own, parentContext]
  let on ← b.maker.make ⟨[b.theme.selector, c.selector], []⟩ .null values
  return (s.add on [roots.parent, parentContext, roots.own]).1

/-- Adds the rules of a context in an optional state. -/
def addContextState (b : SecondaryBuild) (roots : Roots) (s : Stylesheet) (state : OptionalState)
    (c : Context) : Except Fault Stylesheet := do
  let values ← b.valuesIn c state.projection
  let contextRule ← b.maker.find? s ⟨[b.theme.selector], [c.selector]⟩
  let stateRule ← b.maker.find? s ⟨[b.theme.selector, state.selector], []⟩
  let parentContext ← b.maker.find? s ⟨[b.primary.selector], [c.selector]⟩
  let parentState ← b.maker.find? s ⟨[b.primary.selector, state.selector], []⟩
  let parentBoth ← b.maker.find? s ⟨[b.primary.selector, state.selector], [c.selector]⟩
  let inside ← b.maker.make ⟨[b.theme.selector, state.selector], [c.selector]⟩ state.media values
  let (s, _) := s.add inside
    [roots.parent, parentState, roots.own, stateRule, parentContext, parentBoth, contextRule]
  let contextRuleOn ← b.maker.find? s ⟨[b.theme.selector, c.selector], []⟩
  let on ← b.maker.make ⟨[b.theme.selector, state.selector, c.selector], []⟩ state.media values
  return (s.add on
    [roots.parent, parentState, parentContext, roots.own, contextRuleOn, stateRule, contextRule]).1

end SecondaryBuild

/-- Adds the rules of a secondary theme below those of the primary one. -/
def addSecondary (maker : RuleMaker) (primary : Theme) (options : ResolveOptions) (s : Stylesheet)
    (t : Theme) : Except Fault Stylesheet := do
  let resolution ← t.resolve none options
  let values ← t.rootValues space resolution none options
  let b : SecondaryBuild := ⟨maker, primary, t, options, resolution⟩
  let (s, roots) ← b.addRoot s values
  let s ← t.optionalStates.foldlM (b.addState roots) s
  let s ← t.contexts.values.foldlM (b.addContext roots) s
  t.optionalStates.foldlM (fun s state =>
    t.contexts.values.foldlM (fun s c => b.addContextState roots s state c) s) s

/-- Themes by their part in a build: the page-wide theme and all others, or no such theme. -/
inductive Cast where
  | under (primary : Theme) (secondary : List Theme)
  | apart (themes : List Theme)

/-- Finds the primary theme; there must be at most one. -/
def Cast.ofThemes (themes : List Theme) : Except Fault Cast :=
  match themes.filter Theme.isGlobal with
  | [] => .ok (.apart themes)
  | [primary] => .ok (.under primary (themes.filter fun t => !t.isGlobal))
  | several => do .error (.severalGlobalThemes (← Selector.fragmentTexts (several.map Theme.id)))

/-- The stylesheet of several themes. -/
def buildMulti (maker : RuleMaker) (themes : List Theme) (options : ResolveOptions := {}) :
    Except Fault Stylesheet := do
  match ← Cast.ofThemes themes with
  | .apart themes =>
    themes.foldlM (fun s t => s.absorb <$> buildSingle space maker t none options) {}
  | .under primary secondary =>
    let s ← buildSingle space maker primary none options
    secondary.foldlM (addSecondary space maker primary options) s

end DesignTokens
