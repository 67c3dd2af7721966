import DesignTokens.Document
import DesignTokens.Selector.Customizer

/-!
Options of the compiler: how references are written, how selectors are boosted and under which
namespace they stand, and how palettes are generated.
-/

namespace DesignTokens

/-- How the selectors of a single theme are boosted. -/
inductive Strategy where
  | gradual
  | id
  | none
  deriving DecidableEq, Repr

namespace Strategy

def name : Strategy → String
  | gradual => "gradual"
  | id => "id"
  | none => "none"

def ofName? : String → Option Strategy
  | "gradual" => some gradual
  | "id" => some id
  | "none" => some none
  | _ => Option.none

def customizer : Strategy → Customizer
  | gradual => Customizer.gradual
  | id => Customizer.single
  | none => fun selector => selector

end Strategy

/-- The kind of page a palette is made for. -/
inductive PaletteMode where
  | light
  | dark
  deriving DecidableEq, Repr

namespace PaletteMode

def name : PaletteMode → String
  | light => "light"
  | dark => "dark"

def ofName? : String → Option PaletteMode
  | "light" => some light
  | "dark" => some dark
  | _ => none

end PaletteMode

/-- The options. Values that no rule inspects before their use are kept as given. -/
structure Config where
  useVars : Value := .bool false
  strategy : Strategy := .gradual
  space : Value := .text ""
  autoAdjust : Value := .bool true
  paletteMode : Option PaletteMode := none

namespace Config

/-- The customizer of single-theme builds. -/
def customizer (c : Config) : Customizer :=
  c.strategy.customizer.namespaced (if c.space.truthy then c.space.display else "")

/-- A selector that a document gives, customized. In a container the marks that exempt a selector
are looked for among its members; no other operation is defined on it. -/
def customizeValue (c : Config) (v : Value) : Except Fault Value := do
  match v with
  | .text s => return .text (c.customizer s)
  | v =>
    if c.space.truthy then .error .noOperation
    let marks := match c.strategy with
      | .gradual => [":export"]
      | .id => [":root", ":export", Selector.booster]
      | .none => []
    if marks.isEmpty || (← marks.anyM v.mentions) then return v else .error .noOperation

/-- The options by the name they have in every spelling. -/
structure Given where
  useVars : Value := .bool false
  strategy : Value := .text "gradual"
  space : Value := .text ""
  autoAdjust : Value := .bool true
  paletteMode : Value := .null

/-- Writes words of a name apart with underscores. -/
def snakeCase (name : String) : String :=
  String.ofList (name.toList.flatMap fun c => if c.isUpper then ['_', c.toLower] else [c])

/-- Takes one option; the last one of a name counts. -/
def Given.set (g : Given) (name : String) (v : Value) : Except Fault Given :=
  match snakeCase name with
  | "use_css_vars" => .ok { g with useVars := v }
  | "specificity" => .ok { g with strategy := v }
  | "namespace" => .ok { g with space := v }
  | "auto_adjust_palettes" => .ok { g with autoAdjust := v }
  | "palette_mode" => .ok { g with paletteMode := v }
  | _ => .error (.unknownOption name)

/-- Checks options: the strategy before the palette mode. -/
def ofGiven (g : Given) : Except Fault Config := do
  let some strategy := g.strategy.text?.bind Strategy.ofName?
    | .error (.unknownSpecificity g.strategy)
  let config : Config :=
    { useVars := g.useVars, strategy, space := g.space, autoAdjust := g.autoAdjust }
  if g.paletteMode.isNull then return config
  let some mode := g.paletteMode.text?.bind PaletteMode.ofName?
    | .error (.unknownPaletteMode g.paletteMode)
  return { config with paletteMode := some mode }

/-- Reads options from a document; unknown ones are refused. -/
def ofDocument (v : Value) : Except Fault Config := do
  let given ← (← v.items).entries.foldlM (fun g e => g.set e.1 e.2) ({} : Given)
  ofGiven given

end Config

end DesignTokens
