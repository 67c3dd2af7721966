import DesignTokens.Naming
import DesignTokens.Palette.Generate
import DesignTokens.Sorted
import DesignTokens.Text.Integer
import DesignTokens.Theme.Basic

/-!
Tokens of colour palettes.

The palette of a role is given as a seed, or rung by rung, or rung by rung with a seed for the rungs
left out. Each rung becomes a token named after role and rung. A token that a theme declares itself
is never replaced.
-/

namespace DesignTokens

variable {N : Type} [Add N] [Sub N] [Mul N] [Div N] [LE N] [LT N] [DecidableLE N] [DecidableLT N]
  [OfScientific N] (space : ColorSpace N)

namespace Palette

/-- The colours of a seed that a document gives. -/
def ofSeed (role : String) (seed : Value) (config : Config) : Except Fault Palette :=
  match seed with
  | .text s => generatePalette space role s config.autoAdjust.truthy config.paletteMode
  | .list _ | .object _ => .error .wrongKind
  | _ => .error .noOperation

/-- The rungs as document values. -/
def values (p : Palette) : List (Int × Value) := p.steps.map fun e => (e.1, .text e.2.hex)

/-- The rungs a document gives itself; what is no rung or has no colour is passed over. -/
def givenSteps (fields : OrdMap Value) : List (Int × Value) :=
  fields.entries.foldl (fun steps (key, v) =>
    if key = "seed" || !v.truthy then steps
    else match Text.integer? key with
      | some n => if paletteSteps.contains n then setStep n v steps else steps
      | none => steps) []

/-- The rungs of a palette that a document gives. Given rungs win over generated ones. -/
def expand (role : String) (input : Value) (config : Config) :
    Except Fault (List (Int × Value)) := do
  match input with
  | .text s => return (← ofSeed space role (.text s) config).values
  | _ =>
    let fields ← match input.fields? with
      | some fields => .ok fields
      | none => .error .noOperation
    let given := givenSteps fields
    let seed := (fields.get? "seed").getD .null
    if !seed.truthy then return given
    let generated := (← ofSeed space role seed config).values
    let all := given.foldl (fun steps e => setStep e.1 e.2 steps) generated
    return sorted (fun a b => a.1 ≤ b.1) all

/-- The tokens of all given palettes. -/
def tokens (palettes : OrdMap Value) (config : Config) : Except Fault (OrdMap Value) :=
  palettes.entries.foldlM (fun tokens (role, input) => do
    let steps ← expand space role input config
    return steps.foldl (fun tokens e => tokens.insert (rungTokenName role (toString e.1)) e.2)
      tokens) .empty

end Palette

namespace Theme

/-- The tokens of a theme's palettes. -/
def paletteTokens (t : Theme) (config : Config := {}) : Except Fault (OrdMap Value) :=
  match t.palettes with
  | none => .ok .empty
  | some palettes => Palette.tokens space palettes config

/-- The theme with the tokens of its palettes, those it declares itself left as they are. -/
def withPaletteTokens (t : Theme) (config : Config := {}) : Except Fault Theme := do
  let generated ← t.paletteTokens space config
  let tokens := generated.entries.foldl
    (fun tokens e => tokens.insertNew e.1 (.ofValue e.2)) t.tokens
  return { t with tokens := tokens }

end Theme

end DesignTokens
