import DesignTokens.Build.Css
import DesignTokens.Palette.Cache

/-!
What a build does, step by step, for its log. A step that fails ends the trace.

A palette that was generated before is not generated again, so its note is made once.
-/

namespace DesignTokens

/-- A step that is worth a note. -/
inductive BuildEvent where
  /-- A palette was asked for; the note is made when it is first generated. -/
  | generated (request : PaletteRequest) (note : Option Note)
  | built (count : Nat) (theme : Value)
  | appending (secondary primary : Value)
  | reduced (removed : Nat)

namespace BuildEvent

def note? : BuildEvent → Option Note
  | generated _ note => note
  | built count theme =>
    some ⟨.debug, "lumen.declaration.single", s!"Built {count} rule(s) for theme {theme.display}"⟩
  | appending secondary primary =>
    some ⟨.debug, "lumen.declaration.multi",
      s!"Appending secondary theme {secondary.display} under {primary.display}"⟩
  | reduced removed =>
    some ⟨.debug, "lumen.transforms.minimal",
      s!"Minimal transform removed {removed} empty rule(s)"⟩

/-- The notes on a list of steps, where some palettes are generated already. -/
def notesAfter (known : List PaletteRequest) : List BuildEvent → List Note
  | [] => []
  | generated request note :: events =>
    if known.contains request then notesAfter known events
    else note.toList ++ notesAfter (request :: known) events
  | event :: events => event.note?.toList ++ notesAfter known events

def notes (events : List BuildEvent) : List Note := notesAfter [] events

end BuildEvent

variable {N : Type} [Add N] [Sub N] [Mul N] [Div N] [LE N] [LT N] [DecidableLE N] [DecidableLT N]
  [OfScientific N] (space : ColorSpace N)

/-- The seed that a palette is given by. -/
def seedOf? (input : Value) : Option String :=
  match input with
  | .text s => some s
  | _ => do (← (← input.fields?).get? "seed").text?.filter (· != "")

/-- The generation of one palette. -/
def seedEvent? (config : Config) (role : String) (input : Value) : Option BuildEvent := do
  let seed ← seedOf? input
  let request : PaletteRequest :=
    ⟨role, seed, config.autoAdjust.truthy, config.paletteMode.map PaletteMode.name⟩
  match request.generate space with
  | .ok p => some (.generated request (p.seedNote? role seed))
  | .error _ => none

/-- The generation of palettes, up to one that fails. -/
def paletteEvents (config : Config) : List (String × Value) → List BuildEvent
  | [] => []
  | (role, input) :: rest =>
    match Palette.expand space role input config with
    | .error _ => []
    | .ok _ => (seedEvent? space config role input).toList ++ paletteEvents config rest

/-- The generation of a theme's palettes. -/
def Theme.paletteEvents (t : Theme) (config : Config := {}) : List BuildEvent :=
  DesignTokens.paletteEvents space config ((t.palettes.getD .empty).entries)

/-- The generation of the palettes that a theme's own rule declares. -/
def Theme.rootEvents (t : Theme) (options : ResolveOptions) : List BuildEvent :=
  match t.resolve none options >>= fun r => r.project t .defaults with
  | .error _ => []
  | .ok _ =>
    if options.useVars && !options.properties.isEmpty then t.paletteEvents space else []

variable (maker : RuleMaker) (options : ResolveOptions)

/-- The steps of building one theme. -/
def singleEvents (t : Theme) : List BuildEvent :=
  t.rootEvents space options ++
    match buildSingle space maker t none options with
    | .ok s => [.built s.size t.id]
    | .error _ => []

/-- The steps of building themes that do not meet. -/
def apartEvents : List Theme → List BuildEvent
  | [] => []
  | t :: ts =>
    singleEvents space maker options t ++
      match buildSingle space maker t none options with
      | .ok _ => apartEvents ts
      | .error _ => []

/-- The steps of adding secondary themes to a sheet. -/
def secondaryEvents (primary : Theme) : Stylesheet → List Theme → List BuildEvent
  | _, [] => []
  | s, t :: ts =>
    .appending t.id primary.id :: t.rootEvents space options ++
      match addSecondary space maker primary options s t with
      | .ok s => secondaryEvents primary s ts
      | .error _ => []

/-- The steps of building several themes. -/
def multiEvents (themes : List Theme) : List BuildEvent :=
  match Cast.ofThemes themes with
  | .error _ => []
  | .ok (.apart themes) => apartEvents space maker options themes
  | .ok (.under primary secondary) =>
    singleEvents space maker options primary ++
      match buildSingle space maker primary none options with
      | .ok s => secondaryEvents space maker options primary s secondary
      | .error _ => []

/-- The steps of building several themes and minimising the sheet. -/
def buildEvents (themes : List Theme) : List BuildEvent :=
  multiEvents space maker options themes ++
    match buildMulti space maker themes options with
    | .error _ => []
    | .ok s =>
      match s.minimal with
      | .error _ => []
      | .ok small => [.reduced (s.size - small.size)]

end DesignTokens
