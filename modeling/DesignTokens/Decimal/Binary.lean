/-!
The exact value of a binary floating-point number, and quotients of natural numbers rounded to the
nearest one.
-/

namespace DesignTokens.Decimal

/-- A power of two. -/
def pow2 (n : Nat) : Nat := Nat.pow 2 n

/-- A power of ten. -/
def pow10 (n : Nat) : Nat := Nat.pow 10 n

/-- A finite number: `significand * 2 ^ exponent`, negated if so marked. -/
structure Binary where
  negative : Bool
  significand : Nat
  exponent : Int
  deriving DecidableEq, Repr

/-- The parts of a finite double; none for infinities and for no number. -/
def Binary.ofFloat? (x : Float) : Option Binary :=
  let bits := x.toBits.toNat
  let fraction := bits % pow2 52
  let field : Nat := bits / pow2 52 % pow2 11
  let negative := bits / pow2 63 == 1
  if field = 2047 then none
  else if field = 0 then some ⟨negative, fraction, -1074⟩
  else some ⟨negative, fraction + pow2 52, (field : Int) - 1075⟩

/-- The magnitude as a quotient of natural numbers. -/
def Binary.ratio (b : Binary) : Nat × Nat :=
  if 0 ≤ b.exponent then (b.significand * pow2 b.exponent.toNat, 1)
  else (b.significand, pow2 (-b.exponent).toNat)

/-- A quotient rounded to the nearest natural number, a half to the even neighbour. -/
def roundHalfEven (num den : Nat) : Nat :=
  let q := num / den
  let twice := 2 * (num % den)
  if twice < den then q
  else if den < twice then q + 1
  else if q % 2 = 0 then q else q + 1

/-- The exact remainder of a finite double by a positive one, between zero and the divisor. -/
def floorMod (x y : Float) : Float :=
  match Binary.ofFloat? x, Binary.ofFloat? y with
  | some a, some b =>
    let low := min a.exponent b.exponent
    let num := a.significand * pow2 (a.exponent - low).toNat
    let den := b.significand * pow2 (b.exponent - low).toNat
    let rest := (Float.ofNat (num % den)).scaleB low
    if a.negative && num % den != 0 then y - rest else rest
  | _, _ => 0.0 / 0.0

/-- The greatest whole number not above a finite double; zero for what is not finite. -/
def floorInt (x : Float) : Int :=
  match Binary.ofFloat? x with
  | none => 0
  | some b =>
    let (num, den) := b.ratio
    (if b.negative then -(num : Int) else num).fdiv den

/-- A double rounded to the nearest whole number, a half upwards. -/
def roundHalfUp (x : Float) : Int := floorInt (x + 0.5)

/-- A double rounded to the nearest whole number, a half to the even neighbour. -/
def roundEven (x : Float) : Float :=
  let low := x.floor
  let rest := x - low
  if rest < 0.5 then low
  else if 0.5 < rest then low + 1.0
  else if floorMod low 2.0 == 0.0 then low else low + 1.0

end DesignTokens.Decimal
