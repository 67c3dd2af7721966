import DesignTokens.Decimal.Binary

/-!
The shortest decimal number that reads back as a given double.

A double stands for the interval of reals that round to it, ends included when its significand is
even. On the grid of `n` significant digits the two neighbours of the double's exact value are
tested; the first grid with a neighbour inside the interval wins, and of two neighbours inside it
the nearer one.
-/

namespace DesignTokens.Decimal

/-- The number `digits * 10 ^ exponent`. -/
structure Scientific where
  digits : Nat
  exponent : Int
  deriving DecidableEq, Repr

/-- The interval of reals that round to a positive double, and the double itself, as numerators
over one denominator. -/
structure Interval where
  low : Nat
  value : Nat
  high : Nat
  den : Nat
  closed : Bool

/-- Half a unit to either side, a quarter below a power of two. -/
def Binary.interval (b : Binary) : Interval :=
  let gap := if b.significand = pow2 52 ∧ b.exponent ≠ -1074 then 1 else 2
  let scale := b.exponent - 2
  let up := if 0 ≤ scale then pow2 scale.toNat else 1
  let den := if 0 ≤ scale then 1 else pow2 (-scale).toNat
  { low := (4 * b.significand - gap) * up
    value := 4 * b.significand * up
    high := (4 * b.significand + 2) * up
    den := den
    closed := b.significand % 2 == 0 }

/-- The count of digits before the point; zero or negative for numbers below one tenth of a
unit. -/
def Interval.magnitude (i : Interval) : Int :=
  if i.den ≤ i.value then ((Nat.toDigits 10 (i.value / i.den)).length : Int)
  else
    let places := (List.range 400).find? fun k => i.den ≤ i.value * pow10 k
    1 - (places.getD 400 : Int)

/-- The best number of the grid with `n` significant digits, if the interval holds one. -/
def Interval.onGrid? (i : Interval) (n : Nat) : Option Scientific :=
  let exponent := i.magnitude - n
  let unit := i.den * pow10 exponent.toNat
  let scale := pow10 (-exponent).toNat
  let inside (c : Nat) : Bool :=
    if i.closed then i.low * scale ≤ c * unit && c * unit ≤ i.high * scale
    else i.low * scale < c * unit && c * unit < i.high * scale
  let below := i.value * scale / unit
  let left := i.value * scale - below * unit
  let right := (below + 1) * unit - i.value * scale
  if inside below && (!inside (below + 1) || left < right || (left == right && below % 2 == 0)) then
    some ⟨below, exponent⟩
  else if inside (below + 1) then some ⟨below + 1, exponent⟩
  else none

/-- The shortest decimal number that reads back as a positive double. -/
def Binary.shortest (b : Binary) : Scientific :=
  let i := b.interval
  ((List.range 17).findSome? fun n => i.onGrid? (n + 1)).getD ⟨b.significand, 0⟩

/-- A number without trailing zeros in its digits. -/
def Scientific.trimmed (s : Scientific) : List Char × Int :=
  let digits := Nat.toDigits 10 s.digits
  let kept := (digits.reverse.dropWhile (· == '0')).reverse
  (kept, s.exponent + (digits.length - kept.length : Nat))

/-- Numbers from `1e-4` to below `1e16` are written out with at least one place; others have one
digit before the point, a signed exponent of at least two digits and no needless point. -/
def Scientific.text (s : Scientific) : String :=
  let (digits, exponent) := s.trimmed
  let point : Int := digits.length + exponent
  if -4 < point ∧ point ≤ 16 then
    if point ≤ 0 then String.ofList ('0' :: '.' :: List.replicate (-point).toNat '0' ++ digits)
    else if (digits.length : Int) ≤ point then
      String.ofList (digits ++ List.replicate (point.toNat - digits.length) '0' ++ ['.', '0'])
    else String.ofList (digits.take point.toNat ++ '.' :: digits.drop point.toNat)
  else
    let power := point - 1
    let places := Nat.toDigits 10 power.natAbs
    let tail := 'e' :: (if power < 0 then '-' else '+') ::
      (List.replicate (2 - places.length) '0' ++ places)
    match digits with
    | d :: e :: rest => String.ofList (d :: '.' :: e :: rest ++ tail)
    | _ => String.ofList (digits ++ tail)

/-- The shortest text of a double; a number without a fraction keeps `.0`. -/
def shortest (x : Float) : String :=
  match Binary.ofFloat? x with
  | none => if x != x then "nan" else if x < 0 then "-inf" else "inf"
  | some b =>
    let text := if b.significand = 0 then "0.0" else b.shortest.text
    if b.negative then "-" ++ text else text

end DesignTokens.Decimal
