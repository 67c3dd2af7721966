import DesignTokens.Text.Surrogate
import DesignTokens.Value

/-!
Writing a JSON document, either on one line or with one entry a line, indented by two spaces a
level. It is in ASCII: other code points are escaped as one or two UTF-16 units.
-/

namespace DesignTokens.Json

/-- A code point inside a text. -/
def writeCode (n : Nat) : List Char :=
  if n = '"'.toNat ∨ n = '\\'.toNat then ['\\', Char.ofNat n]
  else if n = '\n'.toNat then ['\\', 'n']
  else if n = '\r'.toNat then ['\\', 'r']
  else if n = '\t'.toNat then ['\\', 't']
  else if n = 0x08 then ['\\', 'b']
  else if n = 0x0c then ['\\', 'f']
  else if 0x20 ≤ n ∧ n < 0x7f then [Char.ofNat n]
  else if n < 0x10000 then Text.unitEscape n
  else
    Text.unitEscape (0xd800 + (n - 0x10000) / 0x400) ++
      Text.unitEscape (0xdc00 + (n - 0x10000) % 0x400)

def writeText (s : String) : String :=
  String.ofList ('"' :: (Text.codes s).flatMap writeCode ++ ['"'])

/-- A double as its shortest text; what is no finite number has a name. -/
def writeFloat (x : Float) : String :=
  if x != x then "NaN"
  else if x == 1.0 / 0.0 then "Infinity"
  else if x == -1.0 / 0.0 then "-Infinity"
  else Decimal.shortest x

/-- A line break and the indentation of a level. -/
def newline (level : Nat) : String := String.ofList ('\n' :: List.replicate (2 * level) ' ')

mutual

def writeAt (level : Nat) : Value → String
  | .null => "null"
  | .bool b => if b then "true" else "false"
  | .int n => toString n
  | .float x => writeFloat x
  | .text s => writeText s
  | .list [] => "[]"
  | .list (v :: items) =>
    "[" ++ newline (level + 1) ++ writeAt (level + 1) v ++ writeItems (level + 1) items ++
      newline level ++ "]"
  | .object [] => "\x7b\x7d"
  | .object ((name, v) :: fields) =>
    "\x7b" ++ newline (level + 1) ++ writeText name ++ ": " ++ writeAt (level + 1) v ++
      writeFields (level + 1) fields ++ newline level ++ "\x7d"

def writeItems (level : Nat) : List Value → String
  | [] => ""
  | v :: items => "," ++ newline level ++ writeAt level v ++ writeItems level items

def writeFields (level : Nat) : List (String × Value) → String
  | [] => ""
  | (name, v) :: fields =>
    "," ++ newline level ++ writeText name ++ ": " ++ writeAt level v ++ writeFields level fields

end

/-- A document of one value. -/
def write (v : Value) : String := writeAt 0 v

/-! ### On one line -/

mutual

/-- A document of one value without line breaks or blanks between its parts. -/
def writeLine : Value → String
  | .null => "null"
  | .bool b => if b then "true" else "false"
  | .int n => toString n
  | .float x => writeFloat x
  | .text s => writeText s
  | .list items => "[" ++ lineItems items ++ "]"
  | .object fields => "\x7b" ++ lineFields fields ++ "\x7d"

def lineItems : List Value → String
  | [] => ""
  | [v] => writeLine v
  | v :: w :: items => writeLine v ++ "," ++ lineItems (w :: items)

def lineFields : List (String × Value) → String
  | [] => ""
  | [(name, v)] => writeText name ++ ":" ++ writeLine v
  | (name, v) :: e :: fields =>
    writeText name ++ ":" ++ writeLine v ++ "," ++ lineFields (e :: fields)

end

end DesignTokens.Json
