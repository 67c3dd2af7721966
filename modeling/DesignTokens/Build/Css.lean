import DesignTokens.Build.Multi
import DesignTokens.Override.Minimal
import DesignTokens.Stylesheet.Minimal

/-!
The style texts of a build and of an override on top of a page that has its base already.
-/

namespace DesignTokens

variable {N : Type} [Add N] [Sub N] [Mul N] [Div N] [LE N] [LT N] [DecidableLE N] [DecidableLT N]
  [OfScientific N] (space : ColorSpace N)

/-- The stylesheet of an override on top of its base. -/
def overrideSheet (base : Theme) (o : Override) (properties : OrdMap Value)
    (customizer : Customizer) (options : ResolveOptions := {}) :
    Except Fault (Stylesheet × List Note) := do
  let m ← base.minimal o options
  let s ← buildSingle space ⟨customizer, { properties }⟩ m.theme (some base) options
  return (s, m.notes)

/-- The stylesheet of a theme with its secondary themes that declares the used tokens, minimised as
often as asked for. -/
def buildSheet (primary : Theme) (secondary : List Theme) (properties : OrdMap Value)
    (customizer : Customizer) (used : List String) (options : ResolveOptions := {})
    (passes : Nat := 1) : Except Fault Stylesheet := do
  let s ← buildMulti space ⟨customizer, { properties, used := some used }⟩ (primary :: secondary)
    options
  (List.range passes).foldlM (fun s _ => s.minimal) s

end DesignTokens
