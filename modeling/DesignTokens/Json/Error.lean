/-!
Why a text is not read as a JSON document: it is none, with the place of the first problem, or it
exceeds a bound of the reader.
-/

namespace DesignTokens.Json

/-- What is wrong at a place of the text. -/
inductive Problem where
  | byteOrderMark
  | value
  | propertyName
  | colon
  | comma
  | extraData
  | unterminated
  | controlCharacter
  | escape
  | codeEscape
  deriving DecidableEq, Repr

def Problem.message : Problem → String
  | byteOrderMark => "Unexpected UTF-8 BOM (decode using utf-8-sig)"
  | value => "Expecting value"
  | propertyName => "Expecting property name enclosed in double quotes"
  | colon => "Expecting ':' delimiter"
  | comma => "Expecting ',' delimiter"
  | extraData => "Extra data"
  | unterminated => "Unterminated string starting at"
  | controlCharacter => "Invalid control character at"
  | escape => "Invalid \\escape"
  | codeEscape => "Invalid \\uXXXX escape"

/-- A problem and its place: line and column count from one, the offset from zero. -/
structure SyntaxError where
  problem : Problem
  line : Nat
  column : Nat
  offset : Nat
  deriving DecidableEq, Repr

/-- The place of a problem after the given count of characters. -/
def SyntaxError.at (problem : Problem) (text : List Char) (offset : Nat) : SyntaxError :=
  let before := text.take offset
  { problem
    line := before.count '\n' + 1
    column := (before.reverse.takeWhile (· != '\n')).length + 1
    offset }

def SyntaxError.message (e : SyntaxError) : String :=
  s!"{e.problem.message}: line {e.line} column {e.column} (char {e.offset})"

/-- A bound of the reader. -/
inductive Bound where
  /-- How deep values may stand inside one another. -/
  | depth
  /-- How many digits a whole number may have; the number met has the given count. -/
  | digits (count : Nat)
  deriving DecidableEq, Repr

/-- Why a text is not read. -/
inductive ReadError where
  | malformed (e : SyntaxError)
  | exceeds (b : Bound)
  deriving DecidableEq, Repr

end DesignTokens.Json
