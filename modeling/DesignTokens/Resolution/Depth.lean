import DesignTokens.Resolution.InContext

/-!
How far references lead.

Commands follow a chain of references only up to a bound. The walks themselves have none; here is
told beforehand whether one of them would pass the bound. A walk that comes back to a token on its
way ends there, so a theme with no more tokens than the bound is never deep.
-/

namespace DesignTokens

namespace Scope

variable (s : Scope) (options : ResolveOptions) (state : Option String)

/-- The token that a walk goes on to from a token. -/
def next? (token : String) : Option String := do
  let v ← ((← s.find? token).at token state).toOption
  let target ← v.target?
  if (options.property? target).isSome then none else some target

/-- The first tokens that references lead to, at most as many as given. -/
def leads : (count : Nat) → String → List String
  | 0, _ => []
  | count + 1, token =>
    token :: match s.next? options state token with
      | some target => leads count target
      | none => []

/-- A walk visits more tokens than the bound. -/
def isDeep (bound : Nat) (token : String) : Bool :=
  let tokens := s.leads options state (bound + 1) token
  bound < tokens.length && decide tokens.Nodup

end Scope

namespace Theme

variable (t : Theme) (base : Option Theme := none) (options : ResolveOptions := {})

/-- The walk of some token visits more tokens than the bound. -/
def isDeep (bound : Nat) : Bool :=
  let source := base.getD t
  let scope := t.scope base
  bound < scope.names.length && source.tokens.keys.any fun token =>
    match source.modeOf token with
    | none => scope.isDeep options none bound token
    | some mode => mode.states.keys.any fun state => scope.isDeep options (some state) bound token

/-- No walk of a theme visits too many tokens. -/
def requireShallow : Except Fault Unit :=
  if t.isDeep base options maxDepth then .error .tooDeep else .ok ()

/-- Nor does one in any of its contexts. -/
def requireShallowContexts : Except Fault Unit := do
  t.requireShallow base options
  t.contexts.values.forM fun c =>
    match t.within c base none with
    | .ok inside => inside.requireShallow base options
    | .error _ => .ok ()

end Theme

end DesignTokens
