import DesignTokens.Config
import DesignTokens.Journal
import DesignTokens.Palette.Roles

/-!
Generating the palette of a seed.

With adjustment the seed is first moved into its role's range. It is then placed on a rung, which
keeps the seed itself unless the seed was moved; the other rungs get colours of the seed's hue.
-/

namespace DesignTokens

/-- A seed, as adjusted, and the colour of each rung. -/
structure Palette where
  seed : Color
  steps : List (Int × Color)
  deriving DecidableEq, Repr

namespace Palette

def color? (p : Palette) (step : Int) : Option Color := p.steps.lookup step

/-- Gives a rung a value, in place if the rung has one. -/
def setStep {α : Type} (step : Int) (v : α) : List (Int × α) → List (Int × α)
  | [] => [(step, v)]
  | (n, w) :: rest => if n = step then (step, v) :: rest else (n, w) :: setStep step v rest

end Palette

namespace Ladder

variable {N : Type} [Add N] [Sub N] [Mul N] [Div N] [LE N] [LT N] [DecidableLE N] [DecidableLT N]
  [OfScientific N] (space : ColorSpace N) (l : Ladder N)

/-- The rung that carries the interactive colour of a page mode. -/
def pinned? (mode : Option PaletteMode) : Except Fault (Option (Rung N)) :=
  match l.policy, mode with
  | .pinned, some .light => some <$> l.rung 600
  | .pinned, some .dark => some <$> l.rung 400
  | _, _ => .ok none

/-- The chroma that neutral seeds are muted to. -/
def mutedChroma : N := 15.0

/-- The seed moved into the range of its role. -/
def adjustSeed (seed : Hct N) (mode : Option PaletteMode) : Except Fault (Hct N) := do
  match l.policy with
  | .asGiven => return seed
  | .pinned =>
    match ← l.pinned? mode with
    | some r =>
      return if r.holds seed.tone then seed else space.create seed.hue seed.chroma r.midTone
    | none => return seed
  | .muted =>
    return if mutedChroma < seed.chroma then
        space.create seed.hue mutedChroma (l.nearestTone seed.tone)
      else seed

/-- The pinned rung, if the seed's tone is right for it. -/
def exactRung? (tone : N) (mode : Option PaletteMode) : Except Fault (Option (Rung N)) := do
  return (← l.pinned? mode).filter fun r => r.holds tone

/-- Where a seed stands: its rung, its place in the rung's band, and whether the rung is pinned. -/
structure Placement (N : Type) where
  base : Rung N
  proportion : N
  isExact : Bool

def place (seed : Hct N) (mode : Option PaletteMode) : Except Fault (Placement N) := do
  match ← l.exactRung? seed.tone mode with
  | some r => return ⟨r, 0.5, true⟩
  | none =>
    match l.placeOf? seed.tone with
    | some r => return ⟨r, r.proportion seed.tone, false⟩
    | none => .error (.unplacedSeed seed.color.hex)

/-- The rung keeps the seed itself. -/
def keepsSeed (p : Placement N) (wasAdjusted : Bool) (r : Rung N) : Bool :=
  r.step == p.base.step && (!wasAdjusted || p.isExact)

/-- The palette of a seed. -/
def palette (seed : Color) (autoAdjust : Bool) (mode : Option PaletteMode) :
    Except Fault Palette := do
  let adjusted ← if autoAdjust then Hct.color <$> l.adjustSeed space (space.of seed) mode
    else .ok seed
  let measured := space.of adjusted
  let placement ← l.place measured mode
  let chroma ← l.baseChroma measured.chroma placement.base
  let steps := l.rungs.foldl (fun steps r =>
    let color :=
      if keepsSeed placement (adjusted != seed) r then adjusted
      else space.solve measured.hue (lesser (r.chromaShare * chroma) l.maxChroma)
        (r.toneAt placement.proportion)
    Palette.setStep r.step color steps) []
  return ⟨adjusted, steps⟩

end Ladder

/-- The palette of a role for a seed given as text. -/
def generatePalette {N : Type} [Add N] [Sub N] [Mul N] [Div N] [LE N] [LT N] [DecidableLE N]
    [DecidableLT N] [OfScientific N] (space : ColorSpace N) (role seed : String)
    (autoAdjust : Bool) (mode : Option PaletteMode) : Except Fault Palette := do
  (Ladder.ofRole role : Ladder N).palette space (← Color.ofText seed) autoAdjust mode

/-- The note on a seed that was moved or is written otherwise than colours are. -/
def Palette.seedNote? (p : Palette) (role seed : String) : Option Note :=
  if p.seed.hex = seed.map Char.toLower then none
  else some ⟨.debug, "lumen.palette.generator",
    s!"Seed {seed} for role {role} normalized to {p.seed.hex}"⟩

end DesignTokens
