import DesignTokens.Resolution.Walk

/-!
Resolving all tokens of a theme, alone or as changes to a base theme.

On top of a base the base's tokens are resolved, looked up in the theme first, and those are kept
whose walk passes through a token of the theme.
-/

namespace DesignTokens

/-- What a token stands for, with the walks that led there. -/
inductive Traced where
  | single (trace : Trace)
  | perState (traces : OrdMap Trace)

namespace Traced

def resolved : Traced → Resolved
  | single trace => .single trace.value
  | perState traces => .perState (traces.map Trace.value)

/-- A walk passes through one of the tokens. -/
def passes (tokens : OrdMap Assignment) : Traced → Bool
  | single trace => trace.path.any tokens.contains
  | perState traces => traces.values.any fun trace => trace.path.any tokens.contains

end Traced

/-- Walks from a token, once for each state of its mode. -/
def Scope.trace (s : Scope) (options : ResolveOptions) (mode? : Option Mode) (token : String) :
    Except Fault Traced :=
  match mode? with
  | none => .single <$> s.walk options none token []
  | some mode => .perState <$> mode.states.mapM fun state _ => s.walk options (some state) token []

namespace Theme

variable (t : Theme) (base : Option Theme := none) (options : ResolveOptions := {})

/-- The tokens of a theme as they are looked up on top of a base. -/
def scope : Scope := ⟨t.tokens, base.map Theme.tokens⟩

/-- The walks of all tokens, or of those that a theme changes in its base. -/
def trace : Except Fault (OrdMap Traced) :=
  let source := base.getD t
  source.tokens.filterMapM fun token _ => do
    let traced ← (t.scope base).trace options (← source.modeFor token) token
    return if base.isNone || traced.passes t.tokens then some traced else none

/-- What all tokens stand for, or those that a theme changes in its base. -/
def resolve : Except Fault Resolution := (OrdMap.map Traced.resolved) <$> t.trace base options

end Theme

end DesignTokens
