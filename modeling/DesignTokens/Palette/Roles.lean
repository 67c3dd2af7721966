import DesignTokens.Palette.Ladder

/-!
The ladders of the colour roles, and the pairs of rungs that are used as foreground and background
and must therefore differ in tone.
-/

namespace DesignTokens

/-- The roles with colours of their own. -/
def colorRoles : List String := ["primary", "neutral", "error", "success", "warning", "info"]

/-- All rungs a palette may have. -/
def paletteSteps : List Int := (List.range 20).map fun (n : Nat) => 50 * ((n : Int) + 1)

namespace Ladder

variable {N : Type} [OfScientific N]

/-- The ladder of brand and status colours: rung 600 is legible on rung 50, and 400 on 1000. -/
def primary : Ladder N where
  rungs := [
    ⟨50, 0.2, 97.0, 98.0⟩,
    ⟨100, 0.3, 91.0, 96.0⟩,
    ⟨200, 0.5, 84.0, 91.0⟩,
    ⟨300, 0.7, 75.0, 84.0⟩,
    ⟨400, 1.0, 65.0, 75.0⟩,
    ⟨500, 1.0, 48.0, 65.0⟩,
    ⟨600, 1.0, 44.0, 47.0⟩,
    ⟨700, 1.1, 34.0, 44.0⟩,
    ⟨800, 1.15, 25.0, 34.0⟩,
    ⟨900, 1.2, 11.0, 25.0⟩,
    ⟨1000, 1.25, 3.0, 5.0⟩]
  maxChroma := 200.0
  policy := .pinned

/-- The ladder of surfaces, borders and text. -/
def neutral : Ladder N where
  rungs := [
    ⟨50, 0.5, 98.0, 99.0⟩,
    ⟨100, 0.5, 97.0, 98.0⟩,
    ⟨150, 0.5, 96.0, 97.0⟩,
    ⟨200, 0.5, 96.0, 96.0⟩,
    ⟨250, 0.5, 93.0, 95.0⟩,
    ⟨300, 0.5, 88.0, 92.0⟩,
    ⟨350, 0.5, 80.0, 85.0⟩,
    ⟨400, 0.75, 72.0, 76.0⟩,
    ⟨450, 0.75, 68.0, 72.0⟩,
    ⟨500, 0.75, 55.0, 58.0⟩,
    ⟨550, 0.75, 46.0, 52.0⟩,
    ⟨600, 0.75, 44.0, 46.0⟩,
    ⟨650, 0.75, 28.0, 35.0⟩,
    ⟨700, 0.75, 22.0, 27.0⟩,
    ⟨750, 0.75, 14.0, 20.0⟩,
    ⟨800, 0.75, 10.0, 14.0⟩,
    ⟨850, 0.75, 5.0, 7.0⟩,
    ⟨900, 0.75, 3.0, 5.0⟩,
    ⟨950, 0.75, 2.0, 3.0⟩,
    ⟨1000, 0.75, 1.0, 2.0⟩]
  maxChroma := 15.0
  policy := .muted

/-- The ladder of warnings: lighter in the middle, so that yellows stay legible. -/
def warning : Ladder N where
  rungs := [
    ⟨50, 0.5, 97.0, 98.0⟩,
    ⟨100, 0.5, 95.0, 97.0⟩,
    ⟨200, 0.5, 90.0, 95.0⟩,
    ⟨300, 0.75, 86.0, 90.0⟩,
    ⟨400, 1.5, 82.0, 86.0⟩,
    ⟨500, 1.5, 75.0, 82.0⟩,
    ⟨600, 1.0, 65.0, 75.0⟩,
    ⟨700, 1.1, 55.0, 65.0⟩,
    ⟨800, 1.15, 47.0, 55.0⟩,
    ⟨900, 1.2, 41.0, 47.0⟩,
    ⟨1000, 1.25, 5.0, 15.0⟩]
  maxChroma := 200.0

/-- The ladder of a role; most roles have the primary one. -/
def ofRole (role : String) : Ladder N :=
  if role = "neutral" then neutral else if role = "warning" then warning else primary

end Ladder

/-- Two rungs whose tones differ by at least `minDelta`. -/
structure ContrastPair where
  light : Int
  dark : Int
  minDelta : Nat
  deriving DecidableEq, Repr

/-- The pairs that a role guarantees. A distance of 47 serves normal text, one of 37 large text and
controls. -/
def contrastPairs (role : String) : List ContrastPair :=
  if role = "neutral" then [⟨50, 600, 47⟩, ⟨400, 1000, 47⟩, ⟨300, 650, 37⟩]
  else if role = "warning" then [⟨50, 900, 47⟩, ⟨400, 1000, 47⟩, ⟨100, 800, 37⟩]
  else [⟨50, 600, 47⟩, ⟨400, 1000, 47⟩, ⟨200, 600, 37⟩]

end DesignTokens
