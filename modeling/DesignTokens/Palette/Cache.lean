import DesignTokens.Palette.Generate

/-!
A store of generated palettes. It never changes what is generated: asking a cache gives the palette
that would be generated, and remembers it.
-/

namespace DesignTokens

/-- What a palette is generated from. -/
structure PaletteRequest where
  role : String
  seed : String
  autoAdjust : Bool := true
  /-- The page mode by name; an unknown one has no effect. -/
  mode : Option String := none
  deriving DecidableEq, Repr

/-- The palette of a request. -/
def PaletteRequest.generate {N : Type} [Add N] [Sub N] [Mul N] [Div N] [LE N] [LT N] [DecidableLE N]
    [DecidableLT N] [OfScientific N] (space : ColorSpace N) (r : PaletteRequest) :
    Except Fault Palette :=
  generatePalette space r.role r.seed r.autoAdjust (r.mode.bind PaletteMode.ofName?)

/-- Palettes by request, oldest first. -/
structure PaletteCache where
  entries : List (PaletteRequest × Palette) := []

namespace PaletteCache

def find? (c : PaletteCache) (r : PaletteRequest) : Option Palette := c.entries.lookup r

def size (c : PaletteCache) : Nat := c.entries.length

/-- The cache without its palettes. -/
def clear (_ : PaletteCache) : PaletteCache := {}

/-- The palette of a request and the cache that holds it; a failing request leaves the cache as it
is. -/
def generate {N : Type} [Add N] [Sub N] [Mul N] [Div N] [LE N] [LT N] [DecidableLE N]
    [DecidableLT N] [OfScientific N] (space : ColorSpace N) (c : PaletteCache)
    (r : PaletteRequest) : Except Fault Palette × PaletteCache :=
  match c.find? r with
  | some p => (.ok p, c)
  | none =>
    match r.generate space with
    | .ok p => (.ok p, ⟨c.entries ++ [(r, p)]⟩)
    | .error f => (.error f, c)

end PaletteCache

end DesignTokens
