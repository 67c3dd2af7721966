/-!
Reading the words of a command line as options and operands.

An option has a long name after two hyphens and perhaps a letter after one. Its value follows it as
the next word, after an equals sign, or right after its letter. Letters without values may be
written together. A word of two hyphens ends the options.
-/

namespace DesignTokens.Command

/-- An option that a command knows. -/
structure OptionSpec where
  name : String
  letter : Option Char := none
  takesValue : Bool := true

/-- The options given, each with its value, and the operands, in order. -/
structure Given where
  options : List (String × String) := []
  operands : List String := []

namespace Given

/-- The last value of an option. -/
def value? (g : Given) (name : String) : Option String :=
  (g.options.reverse.find? fun e => e.1 == name).map Prod.snd

/-- All values of an option. -/
def values (g : Given) (name : String) : List String :=
  (g.options.filter fun e => e.1 == name).map Prod.snd

def has (g : Given) (name : String) : Bool := (g.value? name).isSome

def addOptions (g : Given) (options : List (String × String)) : Given :=
  { g with options := g.options ++ options }

def addOperands (g : Given) (operands : List String) : Given :=
  { g with operands := g.operands ++ operands }

end Given

/-- What one word gives: options with their values, and perhaps an option whose value is the next
word. -/
structure WordOptions where
  complete : List (String × String) := []
  pending : Option String := none

/-- The options of letters after one hyphen. -/
def letters? (specs : List OptionSpec) : List Char → Option WordOptions
  | [] => some {}
  | c :: cs => do
    let spec ← specs.find? fun s => s.letter == some c
    if spec.takesValue then
      if cs.isEmpty then return { pending := some spec.name }
      else return { complete := [(spec.name, String.ofList cs)] }
    else
      let others ← letters? specs cs
      return { others with complete := (spec.name, "") :: others.complete }

/-- The option of a word with two hyphens. -/
def long? (specs : List OptionSpec) (word : List Char) : Option WordOptions := do
  let name := word.takeWhile (· != '=')
  let spec ← specs.find? fun s => s.name.toList == name
  match word.dropWhile (· != '=') with
  | [] => return if spec.takesValue then { pending := some spec.name }
      else { complete := [(spec.name, "")] }
  | _ :: value =>
    if spec.takesValue then return { complete := [(spec.name, String.ofList value)] } else none

/-- The options of a word; none if it has none or they are not known. -/
def wordOptions? (specs : List OptionSpec) (word : String) : Option WordOptions :=
  match word.toList with
  | '-' :: '-' :: cs => long? specs cs
  | '-' :: cs => letters? specs cs
  | _ => none

/-- A word that is not an option: it has no hyphen in front, or it is one alone. -/
def isOperand (word : String) : Bool := word.toList.head? != some '-' || word == "-"

/-- Reads words; none if an option is unknown or lacks its value. Unless options may stand among
operands, the first operand ends them. -/
def readWords (specs : List OptionSpec) (among : Bool) (given : Given) :
    List String → Option Given
  | [] => some given
  | word :: rest =>
    if word = "--" then some (given.addOperands rest)
    else if isOperand word then
      if among then readWords specs among (given.addOperands [word]) rest
      else some (given.addOperands (word :: rest))
    else
      match wordOptions? specs word with
      | none => none
      | some found =>
        let given := given.addOptions found.complete
        match found.pending with
        | none => readWords specs among given rest
        | some name =>
          match rest with
          | [] => none
          | value :: rest => readWords specs among (given.addOptions [(name, value)]) rest

end DesignTokens.Command
