import DesignTokens.Palette.Color

/-!
Colours by hue, chroma and tone. A colour space measures colours and finds the colour of given
measures; everything about palettes is stated for any such pair of functions and for any kind of
number.
-/

namespace DesignTokens

/-- A colour together with its measures. -/
structure Hct (N : Type) where
  color : Color
  hue : N
  chroma : N
  tone : N

/-- How colours are measured, and which colour comes nearest to given measures. -/
structure ColorSpace (N : Type) where
  /-- Hue, chroma and tone. -/
  measure : Color → N × N × N
  solve : (hue chroma tone : N) → Color

namespace ColorSpace

variable {N : Type} (space : ColorSpace N)

def of (c : Color) : Hct N :=
  let (hue, chroma, tone) := space.measure c
  ⟨c, hue, chroma, tone⟩

/-- The colour nearest to given measures, with the measures it has. -/
def create (hue chroma tone : N) : Hct N := space.of (space.solve hue chroma tone)

end ColorSpace

end DesignTokens
