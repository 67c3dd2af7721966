import DesignTokens.Resolution.Basic
import DesignTokens.Selector.Compose
import DesignTokens.Stylesheet.Basic

/-!
Making rules: a selector from fragments, and a declaration for each token that has a property.
-/

namespace DesignTokens

/-- The custom property of each token, and the tokens to be declared; without a list of them all
tokens are. -/
structure Registry where
  properties : OrdMap Value
  used : Option (List String) := none

/-- The property to declare a token by; none for a token that is not to be declared. A token to be
declared must have a property. -/
def Registry.property? (r : Registry) (token : String) : Except Fault (Option String) :=
  if r.used.any fun used => !used.contains token then .ok none
  else
    match (r.properties.get? token).getD .null with
    | .list (_ :: _) | .object (_ :: _) => .error .wrongKind
    | property => if property.truthy then .ok (some property.display)
      else .error (.missingProperty token)

/-- What rules are made with. -/
structure RuleMaker where
  customizer : Customizer
  registry : Registry

namespace RuleMaker

open Selector (Fragments)

/-- The rule that declares projected values under the selector of some fragments. -/
def make (m : RuleMaker) (fragments : Fragments) (media : Value) (values : Projected) :
    Except Fault Rule := do
  let selector ← fragments.selector m.customizer
  values.entries.foldlM (fun (r : Rule) (token, v) => do
    match ← m.registry.property? token with
    | some property => return r.declare property v
    | none => return r) { selector, media }

/-- The rule of a sheet that has the selector of some fragments. -/
def find? (m : RuleMaker) (s : Stylesheet) (fragments : Fragments) :
    Except Fault (Option RuleId) := do
  return s.find? (← fragments.selector m.customizer)

end RuleMaker

/-- Adds a rule to a sheet unless it is empty; unknown rules are left out of its path. -/
def Stylesheet.add (s : Stylesheet) (r : Rule) (path : List (Option RuleId)) :
    Stylesheet × Option RuleId :=
  if r.isEmpty then (s, none)
  else
    let (s, id) := s.make r
    (s.append id (path.filterMap fun r => r), some id)

end DesignTokens
