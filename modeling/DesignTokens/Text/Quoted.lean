import DesignTokens.Text.Printable
import DesignTokens.Text.Surrogate

/-!
Quoted texts, as messages show them. A text stands in single quotes, or in double quotes when it
holds a single quote and no double one. Within it the backslash, the quote in use, line feed,
carriage return, tab, unpaired surrogates and every character that is not printable are escaped.
-/

namespace DesignTokens.Text

/-- The quote a text is put into. -/
def quoteFor (cs : List Char) : Char :=
  if cs.contains '\'' && !cs.contains '"' then '"' else '\''

/-- A character inside the given quotes. -/
def escaped (quote c : Char) : List Char :=
  if c = quote ∨ c = '\\' then ['\\', c]
  else if c = '\n' then ['\\', 'n']
  else if c = '\r' then ['\\', 'r']
  else if c = '\t' then ['\\', 't']
  else if isPrintable c then [c]
  else if c.toNat < 0x100 then '\\' :: 'x' :: hexDigits 2 c.toNat
  else if c.toNat < 0x10000 then '\\' :: 'u' :: hexDigits 4 c.toNat
  else '\\' :: 'U' :: hexDigits 8 c.toNat

/-- A code point inside the given quotes. -/
def escapedCode (quote : Char) (n : Nat) : List Char :=
  if isSurrogate n then unitEscape n else escaped quote (Char.ofNat n)

/-- A text in quotes. -/
def quoted (s : String) : String :=
  let quote := quoteFor s.toList
  String.ofList (quote :: (codes s).flatMap (escapedCode quote) ++ [quote])

end DesignTokens.Text
