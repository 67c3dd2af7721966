import DesignTokens.Decimal.Binary

/-!
Decimal numbers with a fixed count of places: the exact value rounded to the nearest such number, a
half to the even neighbour.
-/

namespace DesignTokens.Decimal

/-- The digits of a number, at least as many as asked for. -/
def padded (width n : Nat) : List Char :=
  let digits := Nat.toDigits 10 n
  List.replicate (width - digits.length) '0' ++ digits

/-- A count of units of the last place, written with its decimal point. -/
def placed (places units : Nat) : String :=
  let digits := padded (places + 1) units
  let whole := digits.take (digits.length - places)
  let rest := digits.drop (digits.length - places)
  String.ofList (if places = 0 then whole else whole ++ '.' :: rest)

/-- A double with a fixed count of places; a negative number keeps its sign when it rounds to
zero. -/
def fixed (places : Nat) (x : Float) : String :=
  match Binary.ofFloat? x with
  | none => if x != x then "nan" else if x < 0 then "-inf" else "inf"
  | some b =>
    let (num, den) := b.ratio
    let text := placed places (roundHalfEven (num * pow10 places) den)
    if b.negative then "-" ++ text else text

end DesignTokens.Decimal
