/-!
# Binary floating point

Numbers with 53 binary digits, without sign, infinity or a least exponent.

* `Binary64.nearest`: a quotient rounded to such a number, a tie to the even neighbour.
* `Binary64.add`, `Binary64.div`: the exact result, rounded.
-/

namespace CompilerTrials

/-- The number `mantissa * 2 ^ exponent`. A mantissa that is not zero has 53 binary digits. -/
structure Binary64 where
  mantissa : Nat
  exponent : Int
deriving DecidableEq, Repr

namespace Binary64

/-- The least mantissa that has too many digits, 2^53. -/
def mantissaLimit : Nat := 9007199254740992

/-- The least mantissa that has enough digits, 2^52. -/
def mantissaLeast : Nat := 4503599627370496

/-- The quotient rounded to a whole number, a tie to the even one. -/
def roundDiv (num den : Nat) : Nat :=
  let q := num / den
  let r := num % den
  if 2 * r < den then q
  else if den < 2 * r then q + 1
  else if q % 2 = 0 then q else q + 1

/-- The quotient of two numbers, times two to the power `-e`, as a numerator and a denominator. -/
def scale (num den : Nat) (e : Int) : Nat × Nat :=
  (num * Nat.pow 2 (-e).toNat, den * Nat.pow 2 e.toNat)

/-- The exponent at which the quotient has 53 digits before the binary point. -/
def exponentOf (num den : Nat) : Int :=
  let e : Int := (num.log2 : Int) - den.log2 - 53
  let (n, d) := scale num den e
  if n / d < mantissaLimit then e else e + 1

def nearest (num den : Nat) : Binary64 :=
  if num = 0 then ⟨0, 0⟩
  else
    let e := exponentOf num den
    let (n, d) := scale num den e
    let m := roundDiv n d
    if m < mantissaLimit then ⟨m, e⟩ else ⟨mantissaLeast, e + 1⟩

/-- The numerator of the exact value over `den`. -/
def num (x : Binary64) : Nat := x.mantissa * Nat.pow 2 x.exponent.toNat

def den (x : Binary64) : Nat := Nat.pow 2 (-x.exponent).toNat

def ofNat (n : Nat) : Binary64 := nearest n 1

/-- The sum, rounded. -/
def add (x y : Binary64) : Binary64 := nearest (x.num * y.den + y.num * x.den) (x.den * y.den)

/-- The quotient, rounded; the divisor is not zero. -/
def div (x y : Binary64) : Binary64 := nearest (x.num * y.den) (x.den * y.num)

end Binary64

end CompilerTrials
