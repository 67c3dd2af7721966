import DesignTokens.Diagnostic
import DesignTokens.Text.Integer

/-!
Why an operation has no result. Each constructor is one cause; `Fault.message` words it.

The causes fall into four groups: faults of themes, overrides, palettes and colours, which a user
of the compiler is told about; values and names that an operation does not know; limits of numbers,
texts and files; and documents of the wrong shape, which have no wording of their own.
-/

namespace DesignTokens

/-- Why a text is no colour. -/
inductive ColorFault where
  | hex
  | form
  | channel
  deriving DecidableEq, Repr

inductive Fault where
  /-- A reference chain comes back to a token on its path. -/
  | circularDependency (token : String) (path : List String)
  | unknownToken (token : String)
  /-- A state map was met without a state, or without an entry for the state. -/
  | missingModeState (token : String) (state : Option String)
  /-- A context assigns a state map to a token without a mode, and no mode fits the map. -/
  | unboundModeValue (context : Value) (token : String)
  /-- A resolution's shape disagrees with the mode of its token. -/
  | resolutionMismatch (resolution : Value) (token : String)
  /-- An override document has no object of tokens. -/
  | overrideShape
  /-- An override, shown as given, has tokens that are no map. -/
  | overrideTokens (shown : String)
  | severalGlobalThemes (ids : List String)
  | unplacedSeed (seed : String)
  | missingProperty (token : String)
  | invalidTheme (findings : List Diagnostic)
  | invalidColor (cause : ColorFault) (color : String)
  /-- A name or rung that a table does not hold. -/
  | missingKey (key : Value)
  | emptyModeId
  | noDefaultState (mode : Value)
  | unknownSpecificity (given : Value)
  | unknownPaletteMode (given : Value)
  | unknownOption (name : String)
  | notReference (given : Value)
  | unknownSeverity (given : Value)
  /-- An entry of a list of pairs is no pair. -/
  | pairSize (index size : Nat)
  /-- A whole number has too many digits to be read. -/
  | digitCount (count : Nat)
  /-- What is no number has no whole number next to it. -/
  | notNumber
  /-- A number beyond the bounds of its kind. -/
  | overflow
  /-- Values or references go too deep. -/
  | tooDeep
  /-- A text with unpaired surrogates cannot be written. -/
  | unwritable (run : Text.SurrogateRun)
  /-- A file was to be read or written at the path of a directory. -/
  | isDirectory (path : String)
  /-- The way to a path leads through a file. -/
  | notDirectory (path : String)
  /-- Nothing is at a path, nor the directory it would be in. -/
  | noSuchFile (path : String)
  | nameTooLong (path : String)
  /-- A value of a kind the operation is not defined on. -/
  | wrongKind
  /-- A value that lacks the operation asked of it. -/
  | noOperation
  | divisionByZero
  | outOfRange

/-- How deep values may stand inside one another, and how far references are followed. -/
def maxDepth : Nat := 985

namespace Fault

def message : Fault → String
  | circularDependency token _ => s!"Token {token} has a circular dependency."
  | unknownToken token => s!"Token {token} does not exist in the theme."
  | missingModeState token none =>
    s!"Mode resolution for token {token} does not have any mode state."
  | missingModeState token (some state) =>
    s!"Token {token} does not define a value for state {Text.quoted state}."
  | unboundModeValue context token =>
    s!"Context {context.display} assigns a mode value to token {token}, " ++
      "which is not bound to any mode"
  | resolutionMismatch resolution token =>
    s!"Mismatch between resolution {resolution.literal} and mode of token {token}"
  | overrideShape => "Invalid override: tokens must be an object."
  | overrideTokens shown => s!"Missing required \"tokens\" object field in {shown}"
  | severalGlobalThemes ids =>
    "Themes " ++ Text.joinWith ", " ids ++ " have a global selector. It is not supported " ++
      "to have more than one global theme. It produces unpredictable styling results."
  | unplacedSeed seed => s!"Seed color {seed} does not match any palette position specification"
  | missingProperty token => s!"Token {token} does not have a property"
  | invalidTheme findings =>
    let errors := (findings.filter Diagnostic.isError).map Diagnostic.text
    s!"Validation failed with {errors.length} error(s): " ++ Text.joinWith "; " errors
  | invalidColor .hex color => s!"Invalid hex color: {color}"
  | invalidColor .form color => s!"Unsupported color format: {color}"
  | invalidColor .channel color => s!"Invalid rgb color: {color}"
  | missingKey key => key.literal
  | emptyModeId => "Mode id must be a non-empty string"
  | noDefaultState mode => s!"Mode {mode.display} does not have a default state"
  | unknownSpecificity given =>
    s!"Unknown specificity strategy {given.literal}; expected one of gradual, id, none"
  | unknownPaletteMode given => s!"Unknown palette mode {given.literal}"
  | unknownOption name => s!"Unknown compiler option: {name}"
  | notReference given => s!"{given.literal} is not a token reference"
  | unknownSeverity given => s!"{given.literal} is not a valid Severity"
  | pairSize index size =>
    s!"dictionary update sequence element #{index} has length {size}; 2 is required"
  | digitCount count =>
    s!"Exceeds the limit ({Text.maxDigits} digits) for integer string conversion: " ++
      s!"value has {count} digits; use sys.set_int_max_str_digits() to increase the limit"
  | notNumber => "cannot convert float NaN to integer"
  | unwritable run =>
    let what := if run.first = run.last then
        s!"character '{String.ofList (Text.unitEscape run.code)}' in position {run.first}"
      else s!"characters in position {run.first}-{run.last}"
    s!"'utf-8' codec can't encode {what}: surrogates not allowed"
  | isDirectory path => s!"[Errno 21] Is a directory: {Text.quoted path}"
  | notDirectory path => s!"[Errno 20] Not a directory: {Text.quoted path}"
  | noSuchFile path => s!"[Errno 2] No such file or directory: {Text.quoted path}"
  | nameTooLong path => s!"[Errno 36] File name too long: {Text.quoted path}"
  | overflow => "a number out of bounds"
  | tooDeep => "values or references too deep"
  | wrongKind => "a value of the wrong kind"
  | noOperation => "a value without the operation"
  | divisionByZero => "division by zero"
  | outOfRange => "a position out of range"

/-- Faults of the compiler's own rules: those its commands report and end on. -/
def isDesignFault : Fault → Bool
  | circularDependency .. | unknownToken _ | missingModeState .. | unboundModeValue ..
  | resolutionMismatch .. | overrideShape | overrideTokens _ | severalGlobalThemes _
  | unplacedSeed _ | missingProperty _ | invalidTheme _ | invalidColor .. => true
  | _ => false

end Fault

end DesignTokens
