import DesignTokens.Fault
import DesignTokens.Text.Blank
import DesignTokens.Text.Digit
import DesignTokens.Text.Hex

/-!
Colours of three channels and their texts.

A colour is read from three or six hexadecimal digits after `#`, or from `rgb(...)` and `rgba(...)`
with three decimal channels and perhaps an opacity, which is ignored. It is always written as `#`
and six lower-case digits.
-/

namespace DesignTokens

/-- A colour by its channels. -/
structure Color where
  red : UInt8
  green : UInt8
  blue : UInt8
  deriving DecidableEq, Repr

namespace Color

/-- The three channels as one number of 24 bits. -/
def code (c : Color) : Nat := c.red.toNat * 0x10000 + c.green.toNat * 0x100 + c.blue.toNat

/-- The colour of a number's low 24 bits. -/
def ofCode (n : Nat) : Color :=
  ⟨.ofNat (n / 0x10000), .ofNat (n / 0x100), .ofNat n⟩

/-- The number of 32 bits whose top channel is full opacity. -/
def opaqueCode (c : Color) : Nat := 0xff000000 + c.code

/-- The colour as six hexadecimal digits. -/
def hex (c : Color) : String :=
  String.ofList ('#' :: Text.hexDigits 2 c.red.toNat ++ Text.hexDigits 2 c.green.toNat ++
    Text.hexDigits 2 c.blue.toNat)

/-! ### Reading -/

/-- Three digits, each standing for two, or six. -/
def ofHexDigits? (digits : List Char) : Option Color := do
  match ← digits.mapM Text.hexValue? with
  | [r, g, b] => some ⟨.ofNat (17 * r), .ofNat (17 * g), .ofNat (17 * b)⟩
  | [r, s, g, h, b, c] => some ⟨.ofNat (16 * r + s), .ofNat (16 * g + h), .ofNat (16 * b + c)⟩
  | _ => none

/-- One to three digits between blanks, and what follows. -/
def channel? (cs : List Char) : Option (Nat × List Char) :=
  let cs := cs.dropWhile Text.isBlank
  let digits := cs.takeWhile Text.isDigit
  if digits.isEmpty || 3 < digits.length then none
  else some (Text.digitsValue digits, (cs.dropWhile Text.isDigit).dropWhile Text.isBlank)

/-- A closing parenthesis at the end, perhaps after a comma and an opacity. -/
def closes : List Char → Bool
  | [')'] => true
  | ',' :: cs =>
    let cs := cs.dropWhile Text.isBlank
    let isOpacity (c : Char) : Bool := c == '.' || Text.isDigit c
    !(cs.takeWhile isOpacity).isEmpty &&
      (cs.dropWhile isOpacity).dropWhile Text.isBlank == [')']
  | _ => false

/-- What follows the opening parenthesis of a functional notation. -/
def afterName? : List Char → Option (List Char)
  | 'r' :: 'g' :: 'b' :: 'a' :: '(' :: cs => some cs
  | 'r' :: 'g' :: 'b' :: '(' :: cs => some cs
  | _ => none

/-- What follows a comma. -/
def afterComma? : List Char → Option (List Char)
  | ',' :: cs => some cs
  | _ => none

/-- The three channels of a functional notation. -/
def channels? (cs : List Char) : Option (Nat × Nat × Nat) := do
  let (red, cs) ← channel? (← afterName? cs)
  let (green, cs) ← channel? (← afterComma? cs)
  let (blue, cs) ← channel? (← afterComma? cs)
  if closes cs then some (red, green, blue) else none

/-- Reads a colour between blanks. -/
def ofText (s : String) : Except Fault Color :=
  match Text.stripBy Text.isBlank s.toList with
  | '#' :: digits =>
    match ofHexDigits? digits with
    | some c => .ok c
    | none => .error (.invalidColor .hex s)
  | cs =>
    match channels? cs with
    | none => .error (.invalidColor .form s)
    | some (red, green, blue) =>
      if red ≤ 255 ∧ green ≤ 255 ∧ blue ≤ 255 then .ok ⟨.ofNat red, .ofNat green, .ofNat blue⟩
      else .error (.invalidColor .channel s)

end Color

end DesignTokens
