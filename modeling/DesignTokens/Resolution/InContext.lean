import DesignTokens.Resolution.OfTheme

/-!
Resolving a theme inside one of its contexts.

Without a base the context's assignments are written over the theme's. On top of a base whose
context of the same id is known, a context's own assignments come first, then those of the base's
context, then those of the theme, then those of the base; tokens that the theme changes are assigned
anew from that context before the theme is resolved.
-/

namespace DesignTokens

/-- The mode whose states a context's map for a token without mode is read by: the context's
default mode, or the first mode that has all the states and whose default state is among them. -/
def Theme.contextMode? (t : Theme) (c : Context) (values : OrdMap Value) :
    Except Fault (Option Mode) := do
  match (← c.defaultMode.lookupName?).bind t.modes.get? with
  | some mode => return some mode
  | none => return t.modes.values.find? fun mode =>
      values.keys.all mode.states.contains && mode.defaultState?.any values.contains

/-- An assignment made in a context, with a state map on a token without mode reduced to its entry
for the default state. -/
def Theme.collapse (t : Theme) (c : Context) (token : String) (a : Assignment) :
    Except Fault Assignment := do
  match a with
  | .states values =>
    if (← t.modeFor token).isSome then return a
    match ← t.contextMode? c values with
    | none => .error (.unboundModeValue c.id token)
    | some mode =>
      let state ← mode.defaultState
      match values.get? state with
      | some v => return .ofValue v
      | none => .error (.missingKey (.text state))
  | a => return a

def Theme.collapseAll (t : Theme) (c : Context) (tokens : OrdMap Assignment) :
    Except Fault (OrdMap Assignment) :=
  tokens.mapM (t.collapse c)

/-- The assignments that the base's context gives to the tokens a theme changes, where they differ
from those in force. -/
def Theme.rebaselined (t base : Theme) (baseContext : Context) (changed : Resolution) :
    OrdMap Assignment :=
  changed.filterMap fun token _ =>
    let current := ((t.tokens.get? token).or (base.tokens.get? token)).getD .null
    let inContext := baseContext.tokens.get? token
    if inContext.isNone && !t.tokens.contains token then none
    else if (inContext.getD .null).same current then none
    else some (inContext.getD current)

/-- The base's context of the same id. -/
def Theme.counterpart? (base : Theme) (c : Context) : Except Fault (Option Context) := do
  return (← c.id.lookupName?).bind base.contexts.get?

/-- The theme with a context's assignments in force. -/
def Theme.within (t : Theme) (c : Context) (base : Option Theme) (changed : Option Resolution) :
    Except Fault Theme := do
  let own ← (base.getD t).collapseAll c c.tokens
  let overTheme := { t with tokens := t.tokens.union own }
  let some base := base | return overTheme
  match changed, ← base.counterpart? c with
  | some changed, some baseContext =>
    let below ← base.collapseAll c (t.rebaselined base baseContext changed)
    return { t with tokens := below.union own }
  | _, _ => return overTheme

/-- What the tokens stand for inside a context. `changed` is the resolution of the theme on top of
its base, if the base's context is to show through. -/
def Theme.resolveIn (t : Theme) (c : Context) (base : Option Theme := none)
    (changed : Option Resolution := none) (options : ResolveOptions := {}) :
    Except Fault Resolution := do
  (← t.within c base changed).resolve base options

end DesignTokens
