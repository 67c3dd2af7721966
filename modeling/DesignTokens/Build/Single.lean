import DesignTokens.Build.Rule
import DesignTokens.Palette.Tokens
import DesignTokens.Resolution.InContext

/-!
The stylesheet of one theme.

There is a rule for the theme itself, one for each optional state, two for each context, and two for
each context in each optional state. A context has two rules since it may lie inside the theme's
element or on it. The path of a rule names the rules whose declarations it inherits: that of the
theme, that of its state, that of its context.

On top of a base only the tokens that the theme changes are declared.
-/

namespace DesignTokens

open Selector (Fragments)

variable {N : Type} [Add N] [Sub N] [Mul N] [Div N] [LE N] [LT N] [DecidableLE N] [DecidableLT N]
  [OfScientific N] (space : ColorSpace N)

namespace Theme

/-- Values with those of the theme's palettes added; palettes are declared where references are
written as properties. -/
def withPaletteValues (t : Theme) (options : ResolveOptions) (values : Projected) :
    Except Fault Projected := do
  if options.useVars && !options.properties.isEmpty then
    let generated ← t.paletteTokens space
    return generated.entries.foldl (fun values e => values.insertNew e.1 e.2) values
  else return values

/-- What a theme's own rule declares. -/
def rootValues (t : Theme) (resolution : Resolution) (base : Option Theme)
    (options : ResolveOptions) : Except Fault Projected := do
  let defaults ← resolution.project t .defaults base
  if base.isNone then t.withPaletteValues space options defaults else return defaults

/-- What is declared for a context, at the default states or at one state. -/
def contextValues (t : Theme) (c : Context) (base : Option Theme) (changed : Option Resolution)
    (options : ResolveOptions) (p : Projection) : Except Fault Projected := do
  (← t.resolveIn c base changed options).project t p base

end Theme

namespace OptionalState

def projection (s : OptionalState) : Projection := .state s.mode.id s.name

end OptionalState

/-- What the rules of a theme are made from. -/
structure SingleBuild where
  maker : RuleMaker
  theme : Theme
  base : Option Theme
  options : ResolveOptions
  /-- The resolution of the theme. -/
  resolution : Resolution

namespace SingleBuild

/-- The resolution that lets the base's contexts show through. -/
def changed (b : SingleBuild) : Option Resolution :=
  if b.base.isSome then some b.resolution else none

def valuesIn (b : SingleBuild) (c : Context) (p : Projection) : Except Fault Projected :=
  b.theme.contextValues c b.base b.changed b.options p

/-- Adds the rule of an optional state. -/
def addState (b : SingleBuild) (root : Option RuleId) (s : Stylesheet) (state : OptionalState) :
    Except Fault Stylesheet := do
  let values ← b.resolution.project b.theme state.projection b.base
  let rule ← b.maker.make ⟨[b.theme.selector, state.selector], []⟩ state.media values
  return (s.add rule [root]).1

/-- Adds the rules of a context inside the theme's element and on it. -/
def addContext (b : SingleBuild) (root : Option RuleId) (s : Stylesheet) (c : Context) :
    Except Fault Stylesheet := do
  let values ← b.valuesIn c .defaults
  let inside ← b.maker.make ⟨[b.theme.selector], [c.selector]⟩ .null values
  let (s, _) := s.add inside [root]
  let on ← b.maker.make ⟨[b.theme.selector, c.selector], []⟩ .null values
  return (s.add on [root]).1

/-- Adds the rules of a context in an optional state. -/
def addContextState (b : SingleBuild) (root : Option RuleId) (s : Stylesheet)
    (state : OptionalState) (c : Context) : Except Fault Stylesheet := do
  let values ← b.valuesIn c state.projection
  let contextRule ← b.maker.find? s ⟨[b.theme.selector], [c.selector]⟩
  let stateRule ← b.maker.find? s ⟨[b.theme.selector, state.selector], []⟩
  let contextRuleOn ← b.maker.find? s ⟨[b.theme.selector, c.selector], []⟩
  let inside ← b.maker.make ⟨[b.theme.selector, state.selector], [c.selector]⟩ state.media values
  let (s, _) := s.add inside [root, stateRule, contextRule]
  let on ← b.maker.make ⟨[b.theme.selector, state.selector, c.selector], []⟩ state.media values
  return (s.add on [root, stateRule, contextRuleOn]).1

end SingleBuild

/-- The stylesheet of a theme, alone or on top of a base. -/
def buildSingle (maker : RuleMaker) (t : Theme) (base : Option Theme := none)
    (options : ResolveOptions := {}) : Except Fault Stylesheet := do
  let resolution ← t.resolve base options
  let values ← t.rootValues space resolution base options
  let rule ← maker.make ⟨[t.selector], []⟩ .null values
  let (s, root) := ({} : Stylesheet).add rule []
  let b : SingleBuild := ⟨maker, t, base, options, resolution⟩
  let s ← t.optionalStates.foldlM (b.addState root) s
  let s ← t.contexts.values.foldlM (b.addContext root) s
  t.optionalStates.foldlM (fun s state =>
    t.contexts.values.foldlM (fun s c => b.addContextState root s state c) s) s

end DesignTokens
