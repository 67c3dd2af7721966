import DesignTokens.Command.Arguments
import DesignTokens.Config

/-!
The commands of the compiler and their arguments.
-/

namespace DesignTokens.Command

structure BuildArgs where
  preset : String
  output : Option String
  cssVars : Bool
  used : Option String
  config : Config

structure ResolveArgs where
  theme : String
  mode : Option String
  state : Option String
  defaults : Bool

structure PaletteArgs where
  role : String
  seed : String
  mode : Option PaletteMode
  adjust : Bool

structure ValidateArgs where
  theme : String
  override : Option String
  themeable : List String

/-- What the compiler is asked to do. -/
inductive Task where
  | build (args : BuildArgs)
  | resolve (args : ResolveArgs)
  | palette (args : PaletteArgs)
  | validate (args : ValidateArgs)

/-- The whole command line. -/
inductive Invocation where
  | version
  | task (verbose : Bool) (t : Task)

namespace Task

/-- A choice that an option offers; absent it stays open, and an unknown one is refused. -/
def choice? {α : Type} (given : Option String) (ofName? : String → Option α) : Option (Option α) :=
  match given with
  | none => some none
  | some name => (ofName? name).map some

def ofBuild? (words : List String) : Option BuildArgs := do
  let g ← readWords [⟨"output", some 'o', true⟩, ⟨"css-vars", none, false⟩, ⟨"used", none, true⟩,
    ⟨"specificity", none, true⟩, ⟨"namespace", none, true⟩, ⟨"palette-mode", none, true⟩] true {}
    words
  let [preset] := g.operands | none
  let strategy ← choice? (g.value? "specificity") Strategy.ofName?
  let paletteMode ← choice? (g.value? "palette-mode") PaletteMode.ofName?
  let cssVars := g.has "css-vars"
  let config : Config := {
    useVars := .bool cssVars
    strategy := strategy.getD .gradual
    space := .text ((g.value? "namespace").getD "")
    paletteMode }
  return { preset, output := g.value? "output", cssVars, used := g.value? "used", config }

def ofResolve? (words : List String) : Option ResolveArgs := do
  let g ← readWords [⟨"mode", none, true⟩, ⟨"state", none, true⟩, ⟨"defaults", none, false⟩] true {}
    words
  let [theme] := g.operands | none
  return { theme, mode := g.value? "mode", state := g.value? "state", defaults := g.has "defaults" }

def ofPalette? (words : List String) : Option PaletteArgs := do
  let g ← readWords [⟨"mode", none, true⟩, ⟨"no-adjust", none, false⟩] true {} words
  let [role, seed] := g.operands | none
  let mode ← choice? (g.value? "mode") PaletteMode.ofName?
  return { role, seed, mode, adjust := !g.has "no-adjust" }

def ofValidate? (words : List String) : Option ValidateArgs := do
  let g ← readWords [⟨"override", none, true⟩, ⟨"themeable", none, true⟩] true {} words
  let [theme] := g.operands | none
  return { theme, override := g.value? "override", themeable := g.values "themeable" }

def ofWords? : List String → Option Task
  | "build" :: words => build <$> ofBuild? words
  | "resolve" :: words => resolve <$> ofResolve? words
  | "palette" :: words => palette <$> ofPalette? words
  | "validate" :: words => validate <$> ofValidate? words
  | _ => none

/-- The files that a task reads. -/
def inputs : Task → List String
  | build args => args.preset :: args.used.toList
  | resolve args => [args.theme]
  | palette _ => []
  | validate args => args.theme :: args.override.toList

end Task

namespace Invocation

/-- Reads a command line; none if it is not understood. The version may be asked for among the
options in front of the command, also where other words stand in the place of a command. -/
def ofWords? (words : List String) : Option Invocation := do
  let general := [⟨"verbose", some 'v', false⟩, ⟨"version", none, false⟩]
  let g ← readWords general false {} words
  if g.has "version" then return .version
  match Task.ofWords? g.operands with
  | some t => return .task (g.has "verbose") t
  | none =>
    let again ← readWords general false {} g.operands
    if again.has "version" then return .version else none

/-- The files that a command line reads. -/
def inputs : Invocation → List String
  | version => []
  | task _ t => t.inputs

end Invocation

end DesignTokens.Command
