import DesignTokens.Build.Trace
import DesignTokens.Command.Invocation
import DesignTokens.Command.Report
import DesignTokens.Decimal.Fixed
import DesignTokens.Json.Reader
import DesignTokens.Json.Writer
import DesignTokens.Override.Sanitize
import DesignTokens.Palette.Cam16
import DesignTokens.Palette.Contrast
import DesignTokens.Resolution.Depth
import DesignTokens.Stylesheet.Depth
import DesignTokens.Text.Lines
import DesignTokens.Theme.Document
import DesignTokens.Theme.Validation

/-!
Running a command on the texts of its files.
-/

namespace DesignTokens.Command

abbrev Result (α : Type) := Except Failure α

def lift {α : Type} (x : Except Fault α) : Result α := x.mapError .fault

/-- The lines of notes that are shown: warnings, and all others if asked for. -/
def shown (verbose : Bool) (notes : List Note) : List String :=
  (notes.filter fun n => verbose || n.level == .warning).map Note.line

/-! ### Files -/

/-- The text of a file, with line feeds for all its line breaks. -/
def textOf (files : Files) (path : String) : Result String := do
  return String.ofList (Text.unifyBreaks (← lift (files.read path)).toList)

def document (text : String) : Result Value := (Json.read text).mapError .ofRead

def load {α : Type} (files : Files) (path : String) (read : Value → Except Fault α) :
    Result α := do
  lift (read (← document (← textOf files path)))

/-! ### Build -/

/-- The tokens listed in a file: a document with a list, or one token a line. -/
def usedTokens (text : String) : Result (List String) := do
  match text.toList.dropWhile Text.isBlank with
  | '[' :: _ => do
    let items ← lift (← document text).members
    return items.map Value.display
  | _ => return Text.filledLines (Text.hold text)

/-- The themes of a preset with the tokens of their palettes. -/
def expanded (config : Config) (p : Preset) : Result (List Theme) :=
  p.themes.mapM fun t => lift (t.withPaletteTokens Cam16.space config)

/-- The generation of the palettes of themes, up to one that fails. -/
def expansionEvents (config : Config) : List Theme → List BuildEvent
  | [] => []
  | t :: ts =>
    t.paletteEvents Cam16.space config ++
      match t.withPaletteTokens Cam16.space config with
      | .ok _ => expansionEvents config ts
      | .error _ => []

/-- How the selectors of a preset are customized. -/
def presetCustomizer (config : Config) (p : Preset) : Customizer :=
  if p.secondary.isEmpty then config.customizer
  else (Customizer.multi p.theme.selector.display).namespaced config.space.display

/-- What a build works on. -/
structure Prepared where
  themes : List Theme
  maker : RuleMaker
  options : ResolveOptions

def prepare (args : BuildArgs) (files : Files) (p : Preset) : Result Prepared := do
  let themes ← expanded args.config p
  let used ← match args.used with
    | some path => textOf files path >>= usedTokens
    | none => .ok p.properties.keys
  let registry : Registry := { properties := p.properties, used := some used }
  let options : ResolveOptions := { useVars := args.cssVars, properties := p.properties }
  themes.forM fun t => lift (t.requireShallowContexts none options)
  return { themes, maker := ⟨presetCustomizer args.config p, registry⟩, options }

def runBuild (verbose : Bool) (args : BuildArgs) (files : Files) : Report :=
  let label := "Build error"
  match load files args.preset Preset.ofDocument with
  | .error e => .failed label [] e
  | .ok preset =>
    let early := expansionEvents args.config preset.themes
    match prepare args files preset with
    | .error e => .failed label (shown verbose (BuildEvent.notes early)) e
    | .ok p =>
      let events := early ++ buildEvents Cam16.space p.maker p.options p.themes
      let log := shown verbose (BuildEvent.notes events)
      match buildMulti Cam16.space p.maker p.themes p.options >>= (Stylesheet.minimalWithin ·) with
      | .error f => .failed label log (.fault f)
      | .ok s =>
        match args.output.filter (· != "") with
        | some path => { output := ["Wrote " ++ path], log, written := some (path, s.text ++ "\n") }
        | none => { output := [s.text], log }

/-! ### Resolve -/

/-- The part of a resolution that is asked for. -/
def selected (args : ResolveArgs) (t : Theme) (r : Resolution) : Result (OrdMap Value) := do
  match args.mode, args.state with
  | some mode, some state =>
    match (t.modes.get? mode).filter fun m => m.states.contains state with
    | none => .error (.message s!"Unknown mode state: {mode}/{state}")
    | some m => lift (r.project t (.state m.id state))
  | _, _ => if args.defaults then lift (r.project t .defaults) else return r.toMap

def runResolve (verbose : Bool) (args : ResolveArgs) (files : Files) : Report :=
  let label := "Resolve error"
  if args.mode.isSome != args.state.isSome then
    .failed label [] (.message "--mode and --state must be given together")
  else
    match load files args.theme Theme.ofDocument with
    | .error e => .failed label [] e
    | .ok t =>
      let log := shown verbose (BuildEvent.notes (t.paletteEvents Cam16.space))
      let result : Result (OrdMap Value) := do
        let t ← lift (t.withPaletteTokens Cam16.space)
        lift t.requireShallow
        selected args t (← lift t.resolve)
      match result with
      | .error e => .failed label log e
      | .ok m => { output := [Json.write (.ofMap m)], log }

/-! ### Palette -/

/-- A number, pushed to the right end of a field. -/
def rightAligned (width : Nat) (s : String) : String :=
  String.ofList (List.replicate (width - s.length) ' ' ++ s.toList)

/-- A rung with its colour and tone. -/
def rungLine (step : Int) (c : Color) : String :=
  rightAligned 5 (toString step) ++ " " ++ c.hex ++ "  tone=" ++
    Decimal.fixed 1 (Cam16.space.of c).tone

/-- Whether a pair of rungs keeps its distance. -/
def pairLine (pair : ContrastPair) (distance : Float) : String :=
  let verdict := if pair.minDelta.toFloat ≤ distance then "ok" else "FAIL"
  s!"{pair.light}/{pair.dark}: " ++ Decimal.fixed 1 distance ++
    s!" (min {pair.minDelta}) {verdict}"

def runPalette (verbose : Bool) (args : PaletteArgs) : Report :=
  match generatePalette Cam16.space args.role args.seed args.adjust args.mode with
  | .error f => .failed "Palette error" [] (.fault f)
  | .ok p =>
    let rungs := p.steps.map fun (step, c) => rungLine step c
    let pairs := (p.contrasts Cam16.space args.role).map fun (pair, d) => pairLine pair d
    { output := ["seed  " ++ p.seed.hex] ++ rungs ++ [""] ++ pairs
      log := shown verbose (p.seedNote? args.role args.seed).toList }

/-! ### Validate -/

def summary (findings : List Diagnostic) : String :=
  let count (s : Severity) : Nat := (findings.filter fun d => d.severity == s).length
  let (errors, warnings, infos) := (count .error, count .warning, count .info)
  s!"Summary: {errors} error(s), {warnings} warning(s), {infos} info"

def runValidate (verbose : Bool) (args : ValidateArgs) (files : Files) : Report :=
  let on : Override.Listeners (StateM (List Note)) := ⟨fun n => modify (· ++ [n]), none⟩
  let findings : Result (Theme × List Diagnostic × List Note) := do
    let t ← load files args.theme Theme.ofDocument
    lift t.requireBindings
    match args.override with
    | none => return (t, [], [])
    | some path =>
      let o ← load files path Override.ofDocument
      let themeable := if args.themeable.isEmpty then t.tokens.keys else args.themeable
      let ((_, ofOverride), notes) := (o.sanitize on themeable t.contexts.keys).run []
      return (t, ofOverride, notes)
  match findings with
  | .error e => .failed "Load error" [] e
  | .ok (t, ofOverride, notes) =>
    let log := shown verbose notes
    let all := t.validate ++ ofOverride
    if all.isEmpty then { output := [s!"OK: {t.id.display} is valid (0 diagnostics)"], log }
    else
      { exit := if all.any Diagnostic.isError then 1 else 0
        output := all.map Diagnostic.text ++ ["", summary all]
        log }

/-! ### All commands -/

def Task.run (verbose : Bool) (files : Files) : Task → Report
  | .build args => runBuild verbose args files
  | .resolve args => runResolve verbose args files
  | .palette args => runPalette verbose args
  | .validate args => runValidate verbose args files

/-- Runs what is asked for on the files that exist; none if one that is named does not. -/
def Invocation.run? (i : Invocation) (files : Files) : Option Report :=
  if i.inputs.all files.hasPath then
    match i with
    | version => some { output := ["lumen, version 0.1.0"] }
    | task verbose t => some (t.run verbose files).printed
  else none

/-- Runs a command line; none if it is not understood or names a file that does not exist. -/
def run? (words : List String) (files : Files) : Option Report := do
  (← Invocation.ofWords? words).run? files

end DesignTokens.Command
