import DesignTokens.Fault
import DesignTokens.Json.Error

/-!
Reading a JSON document. Objects keep the order of their fields; a repeated name keeps its first
place and takes its last value. Beside the standard's numbers `NaN`, `Infinity` and `-Infinity` are
read. The first problem met is reported with its place. An escape may name half of a surrogate pair
alone; the text that is read holds it.

A reader returns what it read together with the rest of the text. A problem is stated with the
count of characters that were left, from which its place follows.
-/

namespace DesignTokens.Json

/-- Why a reader stops. -/
inductive Stop where
  /-- A problem met with `left` characters still unread. -/
  | problem (problem : Problem) (left : Nat)
  | bound (b : Bound)

/-- Stops in front of the given rest of the text. -/
def stop {α : Type} (problem : Problem) (rest : List Char) : Except Stop α :=
  .error (.problem problem rest.length)

def isSpace (c : Char) : Bool := c == ' ' || c == '\t' || c == '\n' || c == '\r'

def skipSpace (cs : List Char) : List Char := cs.dropWhile isSpace

/-! ### Texts -/

/-- The character that a one-letter escape stands for. -/
def shortEscape? : Char → Option Char
  | '"' => some '"'
  | '\\' => some '\\'
  | '/' => some '/'
  | 'b' => some '\x08'
  | 'f' => some '\x0c'
  | 'n' => some '\n'
  | 'r' => some '\r'
  | 't' => some '\t'
  | _ => none

/-- The number that four hexadecimal digits denote. -/
def code? (a b c d : Char) : Option Nat := do
  let a ← Text.hexValue? a
  let b ← Text.hexValue? b
  let c ← Text.hexValue? c
  let d ← Text.hexValue? d
  return ((a * 16 + b) * 16 + c) * 16 + d

def isHighSurrogate (n : Nat) : Bool := 0xd800 ≤ n && n ≤ 0xdbff
def isLowSurrogate (n : Nat) : Bool := 0xdc00 ≤ n && n ≤ 0xdfff

/-- The code point of a surrogate pair. -/
def pairCode (high low : Nat) : Nat := 0x10000 + (high - 0xd800) * 0x400 + (low - 0xdc00)

/-- Adds a code point to characters in reverse order. -/
def push (n : Nat) (done : List Char) : List Char := (Text.holdCode n).reverse ++ done

/-- Reads a text after its opening quote, with `opened` characters left at that quote. The
characters read so far are in `done`, last one first. -/
def readText (opened : Nat) (done : List Char) : List Char → Except Stop (String × List Char)
  | [] => .error (.problem .unterminated opened)
  | '"' :: rest => .ok (String.ofList done.reverse, rest)
  | '\\' :: 'u' :: a :: b :: c :: d :: '\\' :: 'u' :: e :: f :: g :: h :: i :: rest =>
    match code? a b c d with
    | none =>
      stop .codeEscape ('u' :: a :: b :: c :: d :: '\\' :: 'u' :: e :: f :: g :: h :: i :: rest)
    | some high =>
      if isHighSurrogate high then
        match code? e f g h with
        | none => stop .codeEscape ('u' :: e :: f :: g :: h :: i :: rest)
        | some low =>
          if isLowSurrogate low then readText opened (push (pairCode high low) done) (i :: rest)
          else readText opened (push high done) ('\\' :: 'u' :: e :: f :: g :: h :: i :: rest)
      else readText opened (push high done) ('\\' :: 'u' :: e :: f :: g :: h :: i :: rest)
  | '\\' :: 'u' :: a :: b :: c :: d :: e :: rest =>
    match code? a b c d with
    | none => stop .codeEscape ('u' :: a :: b :: c :: d :: e :: rest)
    | some n => readText opened (push n done) (e :: rest)
  | '\\' :: 'u' :: rest => stop .codeEscape ('u' :: rest)
  | '\\' :: c :: rest =>
    match shortEscape? c with
    | none => stop .escape ('\\' :: c :: rest)
    | some c => readText opened (c :: done) rest
  | ['\\'] => .error (.problem .unterminated opened)
  | c :: rest =>
    if c.toNat < 0x20 then stop .controlCharacter (c :: rest)
    else readText opened (push c.toNat done) rest

/-! ### Numbers -/

def isDecimal (c : Char) : Bool := '0' ≤ c && c ≤ '9'

def decimalValue (cs : List Char) : Nat :=
  cs.foldl (fun n c => 10 * n + (c.toNat - '0'.toNat)) 0

/-- The double nearest to `digits * 10 ^ exponent`. -/
def toFloat (digits : Nat) (exponent : Int) : Float :=
  let size : Int := (Nat.toDigits 10 digits).length + exponent
  if digits = 0 ∨ size < -400 then 0.0
  else if 400 < size then 1.0 / 0.0
  else if 0 ≤ exponent then Float.ofScientific digits false exponent.toNat
  else Float.ofScientific digits true (-exponent).toNat

/-- A point and at least one digit. -/
def readFraction : List Char → Option (List Char × List Char)
  | '.' :: c :: rest =>
    if isDecimal c then some ((c :: rest).takeWhile isDecimal, (c :: rest).dropWhile isDecimal)
    else none
  | _ => none

/-- An exponent mark, perhaps a sign, and at least one digit. -/
def readExponent : List Char → Option (Int × List Char)
  | mark :: rest =>
    if mark == 'e' || mark == 'E' then
      let (negative, digits) := match rest with
        | '-' :: digits => (true, digits)
        | '+' :: digits => (false, digits)
        | digits => (false, digits)
      match digits.takeWhile isDecimal with
      | [] => none
      | ds =>
        let n : Int := decimalValue ds
        some (if negative then -n else n, digits.dropWhile isDecimal)
    else none
  | [] => none

/-- The integer digits of a number: a lone zero, or a run that does not start with zero. -/
def readWhole : List Char → Option (List Char × List Char)
  | '0' :: rest => some (['0'], rest)
  | c :: rest =>
    if isDecimal c then some ((c :: rest).takeWhile isDecimal, (c :: rest).dropWhile isDecimal)
    else none
  | [] => none

/-- A number without its sign. The digits of a whole number are bounded. -/
def readNumber? (negative : Bool) (cs : List Char) : Option (Except Stop (Value × List Char)) := do
  let (whole, rest) ← readWhole cs
  let fraction? := readFraction rest
  let (fraction, rest) := fraction?.getD ([], rest)
  let exponent? := readExponent rest
  let (exponent, rest) := exponent?.getD (0, rest)
  if fraction?.isNone && exponent?.isNone then
    if Text.maxDigits < whole.length then return .error (.bound (.digits whole.length))
    let n : Int := decimalValue whole
    return .ok (.int (if negative then -n else n), rest)
  let x := toFloat (decimalValue (whole ++ fraction)) (exponent - fraction.length)
  return .ok (.float (if negative then -x else x), rest)

/-! ### Documents -/

/-- The named values. -/
def readName? : List Char → Option (Value × List Char)
  | 'n' :: 'u' :: 'l' :: 'l' :: rest => some (.null, rest)
  | 't' :: 'r' :: 'u' :: 'e' :: rest => some (.bool true, rest)
  | 'f' :: 'a' :: 'l' :: 's' :: 'e' :: rest => some (.bool false, rest)
  | 'N' :: 'a' :: 'N' :: rest => some (.float (0.0 / 0.0), rest)
  | 'I' :: 'n' :: 'f' :: 'i' :: 'n' :: 'i' :: 't' :: 'y' :: rest => some (.float (1.0 / 0.0), rest)
  | '-' :: 'I' :: 'n' :: 'f' :: 'i' :: 'n' :: 'i' :: 't' :: 'y' :: rest =>
    some (.float (-1.0 / 0.0), rest)
  | _ => none

/-- A value that holds no others and is no text. -/
def readLeaf (cs : List Char) : Except Stop (Value × List Char) :=
  match readName? cs with
  | some result => .ok result
  | none =>
    let number? := match cs with
      | '-' :: rest => readNumber? true rest
      | rest => readNumber? false rest
    number?.getD (stop .value cs)

mutual

/-- Reads a value inside at most `depth` more; `fuel` bounds the count of steps. -/
def readValue : (fuel depth : Nat) → List Char → Except Stop (Value × List Char)
  | 0, _, cs => stop .value cs
  | _ + 1, _, '"' :: rest => do
    let (s, rest) ← readText (rest.length + 1) [] rest
    return (.text s, rest)
  | _ + 1, 0, '{' :: _ => .error (.bound .depth)
  | fuel + 1, depth + 1, '{' :: rest =>
    match skipSpace rest with
    | '}' :: rest => .ok (.object [], rest)
    | rest => readFields fuel depth [] rest
  | _ + 1, 0, '[' :: _ => .error (.bound .depth)
  | fuel + 1, depth + 1, '[' :: rest =>
    match skipSpace rest with
    | ']' :: rest => .ok (.list [], rest)
    | rest => readItems fuel depth [] rest
  | _ + 1, _, cs => readLeaf cs

/-- Reads the items of a list that is not empty, in front of the next item. -/
def readItems : (fuel depth : Nat) → (done : List Value) → List Char →
    Except Stop (Value × List Char)
  | 0, _, _, cs => stop .value cs
  | fuel + 1, depth, done, cs => do
    let (item, rest) ← readValue fuel depth cs
    match skipSpace rest with
    | ']' :: rest => return (.list (item :: done).reverse, rest)
    | ',' :: rest => readItems fuel depth (item :: done) (skipSpace rest)
    | rest => stop .comma rest

/-- Reads the fields of an object that is not empty, in front of the next name. -/
def readFields : (fuel depth : Nat) → (done : List (String × Value)) → List Char →
    Except Stop (Value × List Char)
  | 0, _, _, cs => stop .value cs
  | fuel + 1, depth, done, '"' :: rest => do
    let (name, rest) ← readText (rest.length + 1) [] rest
    match skipSpace rest with
    | ':' :: rest =>
      let (value, rest) ← readValue fuel depth (skipSpace rest)
      let done := (name, value) :: done
      match skipSpace rest with
      | '}' :: rest => return (.ofMap (OrdMap.ofList done.reverse), rest)
      | ',' :: rest => readFields fuel depth done (skipSpace rest)
      | rest => stop .comma rest
    | rest => stop .colon rest
  | _ + 1, _, _, cs => stop .propertyName cs

end

/-- Reads a whole text as one document. A step either consumes a character or passes the rest of
the text on to a step that does, so twice the length bounds the steps. -/
def read (s : String) : Except ReadError Value :=
  let cs := s.toList
  let result := match cs with
    | '\ufeff' :: _ => stop .byteOrderMark cs
    | cs => do
      let (value, rest) ← readValue (2 * cs.length + 2) maxDepth (skipSpace cs)
      match skipSpace rest with
      | [] => return value
      | rest => stop .extraData rest
  result.mapError fun
    | .problem p left => .malformed (.at p cs (cs.length - left))
    | .bound b => .exceeds b

end DesignTokens.Json
