import DesignTokens.Theme.Basic

/-!
Resolutions: what the tokens of a theme stand for once references are followed. A token without
mode has one value, a token bound to a mode one value for each state.

`Resolution.difference` keeps what changed from one resolution to another; `Resolution.project`
picks one value for each token.
-/

namespace DesignTokens

/-- What a token stands for. -/
inductive Resolved where
  | single (v : Value)
  | perState (values : OrdMap Value)

namespace Resolved

/-- An object is read as one value for each state. -/
def ofValue (v : Value) : Resolved :=
  match v.fields? with
  | some values => perState values
  | none => single v

def toValue : Resolved → Value
  | single v => v
  | perState values => .ofMap values

/-- What differs from an earlier value of the same shape; nothing between different shapes. -/
def difference? : Resolved → Resolved → Option Resolved
  | single (.text s), single (.text t) => if s = t then none else some (single (.text t))
  | perState earlier, perState later =>
    let changed := later.filter fun state v => !((earlier.get? state).getD .null).same v
    if changed.isEmpty then none else some (perState changed)
  | _, _ => none

end Resolved

/-- What each token stands for. -/
abbrev Resolution := OrdMap Resolved

/-- One value for each token. -/
abbrev Projected := OrdMap Value

namespace Resolution

def ofMap (m : OrdMap Value) : Resolution := m.map Resolved.ofValue

def toMap (r : Resolution) : OrdMap Value := r.map Resolved.toValue

/-- The tokens of the second resolution that the first has with another value. -/
def difference (earlier later : Resolution) : Resolution :=
  later.filterMap fun token r => do (← earlier.get? token).difference? r

end Resolution

/-! ### Projection -/

/-- Which value of a token bound to a mode is picked: the one at the default state, or the one at a
given state of a given mode. -/
inductive Projection where
  | defaults
  | state (mode : Value) (name : String)

namespace Projection

/-- The value for a state of a resolved token. -/
def pick (r : Resolved) (state : String) : Except Fault Value :=
  match r with
  | .perState values =>
    match values.get? state with
    | some v => .ok v
    | none => .error (.missingKey (.text state))
  | .single _ => .error .wrongKind

/-- The value picked for a token with the given mode; none for a token bound to another mode. -/
def apply (p : Projection) (mode? : Option Mode) (token : String) (r : Resolved) :
    Except Fault (Option Value) :=
  match p, r, mode? with
  | _, .single (.text s), _ => .ok (some (.text s))
  | .defaults, .perState _, some mode => do return some (← pick r (← mode.defaultState))
  | .state id chosen, r, some mode =>
    if mode.id.same id then some <$> pick r chosen else .ok none
  | _, r, _ => .error (.resolutionMismatch r.toValue token)

end Projection

/-- The picked value of each token, tokens without one left out. The modes are those of the base
theme when there is one. -/
def Resolution.project (r : Resolution) (theme : Theme) (p : Projection)
    (base : Option Theme := none) : Except Fault Projected :=
  r.filterMapM fun token resolved => do
    let picked ← p.apply (← (base.getD theme).modeFor token) token resolved
    return picked.filter fun v => !v.isNull

end DesignTokens
