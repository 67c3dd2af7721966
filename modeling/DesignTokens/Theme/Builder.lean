import DesignTokens.Palette.Tokens

/-!
Making a theme step by step: tokens, perhaps bound to a mode, contexts and colour palettes.
-/

namespace DesignTokens

/-- Assigns a token, or one state of a token that has a state map. -/
def assignState (tokens : OrdMap Assignment) (token : String) (state : Option String) (v : Value) :
    Except Fault (OrdMap Assignment) :=
  match state, tokens.get? token with
  | none, _ => .ok (tokens.insert token (.ofValue v))
  | some _, none => .error (.missingKey (.text token))
  | some name, some (.states values) => .ok (tokens.insert token (.states (values.insert name v)))
  | some _, some _ => .error .wrongKind

namespace Theme

/-- A theme without tokens. Of modes with one id the last one counts. -/
def start (id selector : Value) (modes : List Mode) : Theme :=
  { id, selector, modes := .ofList (modes.map fun m => (m.id.display, m)) }

/-- Adds tokens, bound to a mode if one is given. -/
def addTokens (t : Theme) (tokens : OrdMap Assignment) (mode : Option Mode) : Theme :=
  let bound := match mode with
    | none => .empty
    | some m => tokens.map fun _ => m.id
  { t with tokens := t.tokens.union tokens, bindings := t.bindings.union bound }

/-- Adds a context, in place of one with its id. -/
def addContext (t : Theme) (c : Context) : Theme :=
  { t with contexts := t.contexts.insert c.id.display c }

/-- Records colour palettes without making tokens of them. -/
def recordPalettes (t : Theme) (palettes : OrdMap Value) : Theme :=
  { t with palettes := some palettes }

/-- Writes the tokens of the recorded palettes over the theme's tokens. -/
def writePaletteTokens {N : Type} [Add N] [Sub N] [Mul N] [Div N] [LE N] [LT N] [DecidableLE N]
    [DecidableLT N] [OfScientific N] (space : ColorSpace N) (t : Theme) (config : Config) :
    Except Fault Theme := do
  let generated ← t.paletteTokens space config
  return { t with tokens := t.tokens.union (generated.map Assignment.ofValue) }

end Theme

end DesignTokens
