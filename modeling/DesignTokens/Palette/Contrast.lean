import DesignTokens.Palette.Generate

/-!
How far apart the rungs of a palette are that a role uses as foreground and background.
-/

namespace DesignTokens.Palette

variable {N : Type} (space : ColorSpace N)

/-- The tone of a rung. -/
def tone? (p : Palette) (step : Int) : Option N := (p.color? step).map fun c => (space.of c).tone

/-- The pairs of a role of which a palette has both rungs, each with the distance of their tones,
light minus dark. -/
def contrasts [Sub N] (p : Palette) (role : String) : List (ContrastPair × N) :=
  (contrastPairs role).filterMap fun pair => do
    let light ← p.tone? space pair.light
    let dark ← p.tone? space pair.dark
    return (pair, light - dark)

end DesignTokens.Palette
