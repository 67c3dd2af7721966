import DesignTokens.Palette.ColorSpace

/-!
Ladders of rungs: for each rung of a palette the band of tones its colour must lie in, and how
chromatic it is.

A seed is placed on the rung whose band holds its tone, the narrowest if there are several; between
bands it goes to the rung whose middle is nearest. The other rungs take the same relative place in
their own bands, drawn towards the outer edge.

Everything here holds for any kind of number.
-/

namespace DesignTokens

/-- A number that is neither infinite nor undefined. -/
def isFinite {N : Type} [Sub N] [LE N] [DecidableLE N] [OfScientific N] (x : N) : Bool :=
  x - x ≤ 0.0 && 0.0 ≤ x - x

/-- One rung: its number, its share of the palette's chroma, and its band of tones. -/
structure Rung (N : Type) where
  step : Int
  chromaShare : N
  minTone : N
  maxTone : N

variable {N : Type} [Add N] [Sub N] [Mul N] [Div N] [LE N] [LT N] [DecidableLE N] [DecidableLT N]
  [OfScientific N]

/-- The smaller of two numbers, the first if they are equal. -/
def lesser (a b : N) : N := if b < a then b else a

/-- The greater of two numbers, the first if they are equal. -/
def greater (a b : N) : N := if a < b then b else a

/-- The distance of two numbers. -/
def distance (a b : N) : N :=
  let d := a - b
  if d < 0.0 then 0.0 - d else d

namespace Rung

/-- The band holds a tone, edges included. -/
def holds (r : Rung N) (tone : N) : Bool := r.minTone ≤ tone && tone ≤ r.maxTone

def midTone (r : Rung N) : N := (r.minTone + r.maxTone) / 2.0

def width (r : Rung N) : N := r.maxTone - r.minTone

/-- The place of a tone in the band, from 0 to 1; the middle of a band without width. -/
def proportion (r : Rung N) (tone : N) : N :=
  if r.minTone ≤ r.maxTone ∧ r.maxTone ≤ r.minTone then 0.5
  else greater 0.0 (lesser 1.0 ((tone - r.minTone) / (r.maxTone - r.minTone)))

/-- The tone at a place in the band, drawn halfway towards the light edge on light rungs and towards
the dark edge on dark ones. -/
def toneAt (r : Rung N) (proportion : N) : N :=
  let tone := r.minTone + (r.maxTone - r.minTone) * proportion
  if r.step ≤ 500 then tone + (r.maxTone - tone) * 0.5 else tone - (tone - r.minTone) * 0.5

/-- A rung whose middle is nearer to a tone; of two equally near ones the darker if the tone is
dark. -/
def isNearer (tone : N) (best r : Rung N) : Bool :=
  let old := distance tone best.midTone
  let new := distance tone r.midTone
  new < old || (new ≤ old && old ≤ new && tone < 50.0 && r.midTone < best.midTone)

end Rung

/-- How a ladder treats its seeds. -/
inductive SeedPolicy where
  /-- Seeds stay as they are. -/
  | asGiven
  /-- In a page mode the seed carries the interactive colour of that mode. -/
  | pinned
  /-- Seeds of too much chroma are muted and moved onto a band. -/
  | muted
  deriving DecidableEq, Repr

/-- The rungs of a palette from light to dark, the chroma no rung exceeds, and the treatment of
seeds. -/
structure Ladder (N : Type) where
  rungs : List (Rung N)
  maxChroma : N
  policy : SeedPolicy := .asGiven

namespace Ladder

/-- The rung of a number. -/
def rung (l : Ladder N) (step : Int) : Except Fault (Rung N) :=
  match l.rungs.find? fun r => r.step == step with
  | some r => .ok r
  | none => .error (.missingKey (.int step))

/-- The first rung of least width. -/
def narrowest? (rungs : List (Rung N)) : Option (Rung N) :=
  rungs.foldl (fun best? r => match best? with
    | none => some r
    | some best => some (if r.width < best.width then r else best)) none

/-- The rung whose middle is nearest to a tone, among those at a finite distance. -/
def nearest? (l : Ladder N) (tone : N) : Option (Rung N) :=
  let near := l.rungs.filter fun r => isFinite (distance tone r.midTone)
  near.foldl (fun best? r => match best? with
    | none => some r
    | some best => some (if Rung.isNearer tone best r then r else best)) none

/-- The rung that a tone belongs to. -/
def placeOf? (l : Ladder N) (tone : N) : Option (Rung N) :=
  match l.rungs.filter fun r => r.holds tone with
  | [] => l.nearest? tone
  | holding => narrowest? holding

/-- The middle of the nearest band. -/
def nearestTone (l : Ladder N) (tone : N) : N :=
  match l.nearest? tone with
  | some r => r.midTone
  | none => tone

/-- The chroma of the palette whose given rung has a given chroma. Muted palettes have one chroma
throughout. -/
def baseChroma (l : Ladder N) (chroma : N) (r : Rung N) : Except Fault N :=
  if l.maxChroma < 50.0 then .ok chroma
  else if r.chromaShare ≤ 0.0 ∧ 0.0 ≤ r.chromaShare then .error .divisionByZero
  else .ok (chroma / r.chromaShare)

end Ladder

end DesignTokens
