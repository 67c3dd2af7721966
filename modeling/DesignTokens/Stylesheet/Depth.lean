import DesignTokens.Stylesheet.Minimal

/-!
How far references between properties lead.

Commands follow a chain of references between the properties of a rule only up to a bound. As with
the walks of tokens, here is told beforehand whether reducing a sheet would pass it. Reducing rules
does not change what they hand down, so the sheet can be judged as it is.
-/

namespace DesignTokens

/-- The first properties that references lead to from one, up to a property that is changed; at most
as many as given. -/
def Declarations.leads (own parent : Declarations) : (count : Nat) → String → List String
  | 0, _ => []
  | count + 1, property =>
    property ::
      if own.differAt parent property then []
      else match (own.get? property).map Value.firstVar? with
        | some (.ok (some next)) => own.leads parent count next
        | _ => []

/-- The search from a property visits more properties than the bound. -/
def Declarations.isDeep (own parent : Declarations) (bound : Nat) (property : String) : Bool :=
  let properties := own.leads parent (bound + 1) property
  bound < properties.length && decide properties.Nodup

namespace Stylesheet

/-- Some inherited declaration of a rule starts a search that passes the bound. -/
def isDeepAt (s : Stylesheet) (bound : Nat) (p : Placed) : Bool :=
  let own : Declarations := (s.rule p.rule).declarations
  let parent := s.inherited p.path
  bound < own.size && !p.path.isEmpty && !comparesByValue (s.rule p.rule) &&
    own.entries.any fun (property, v) =>
      parent.isInherited property v && match v.firstVar? with
        | .ok (some next) => own.isDeep parent bound next
        | _ => false

/-- Drops inherited declarations unless a search for changes goes too deep. -/
def minimalWithin (s : Stylesheet) (bound : Nat := maxDepth) : Except Fault Stylesheet :=
  if s.placed.values.any (s.isDeepAt bound) then .error .tooDeep else s.minimal

end Stylesheet

end DesignTokens
