import CompilerTrials.Decimal.Binary64
import CompilerTrials.Text

/-!
# Shortest decimals

Of the decimals that round to a number, the one with the fewest digits is written; of several with
as few digits, the nearest.

* `Shortest.onGrid?`: the multiple of a power of ten that rounds to the number, if there is one.
* `Shortest.ofBinary`: the decimal on the coarsest grid that has one.
* `Shortest.render`: the decimal without an exponent.
-/

namespace CompilerTrials.Shortest

/-- The decimal `digits * 10 ^ exponent`. -/
structure Decimal where
  digits : Nat
  exponent : Int
deriving DecidableEq, Repr

/-- The decimals that round to a number, as bounds over a common denominator. The bounds belong to
them when the mantissa is even. -/
structure Interval where
  low : Nat
  value : Nat
  high : Nat
  den : Nat
  closed : Bool
deriving DecidableEq, Repr

/-- The interval of a number. The neighbour below a power of two is half as far away. -/
def Interval.ofBinary (x : Binary64) : Interval :=
  let below := if x.mantissa = Binary64.mantissaLeast then 1 else 2
  let unit := Nat.pow 2 x.exponent.toNat
  { low := (4 * x.mantissa - below) * unit
    value := 4 * x.mantissa * unit
    high := (4 * x.mantissa + 2) * unit
    den := 4 * x.den
    closed := x.mantissa % 2 = 0 }

def Interval.contains (i : Interval) (num den : Nat) : Bool :=
  let n := num * i.den
  let low := i.low * den
  let high := i.high * den
  (low < n && n < high) || (i.closed && (n = low || n = high))

/-- The multiple of `10 ^ p` that lies in the interval, if there is one: of the two neighbours of
the value the nearer, and the upper one when both are as near. -/
def onGrid? (i : Interval) (p : Int) : Option Decimal :=
  let up := Nat.pow 10 p.toNat
  let down := Nat.pow 10 (-p).toNat
  let step := i.den * up
  let q := i.value * down / step
  let r := i.value * down % step
  let lower := i.contains (q * up) down
  let upper := i.contains ((q + 1) * up) down
  if upper ∧ (¬ lower ∨ step ≤ 2 * r) then some ⟨q + 1, p⟩
  else if lower then some ⟨q, p⟩
  else none

/-- The number as it is: two to the power `-k` is five to the power `k`, over ten to the same. -/
def exact (x : Binary64) : Decimal :=
  ⟨x.num * Nat.pow 5 (-x.exponent).toNat, min x.exponent 0⟩

/-- The decimal on the coarsest grid that has one. A grid on which the number lies itself ends the
search. -/
def ofBinary (x : Binary64) : Decimal :=
  let i := Interval.ofBinary x
  let top := (Text.ofNat (x.num / x.den)).length
  let grids := (List.range (top + (-x.exponent).toNat + 1)).map (fun k : Nat => (top : Int) - k)
  (grids.findSome? (onGrid? i)).getD (exact x)

/-- The decimal without an exponent; the zeros up to the point are written out. -/
def Decimal.render (d : Decimal) : Text :=
  let digits := Text.ofNat d.digits
  let places := (-d.exponent).toNat
  if places = 0 then digits ++ List.replicate d.exponent.toNat '0'
  else
    let padded := digits.padLeft (places + 1) '0'
    padded.take (padded.length - places) ++ '.' :: padded.drop (padded.length - places)

def render (x : Binary64) : Text :=
  if x.mantissa = 0 then ['0'] else (ofBinary x).render

end CompilerTrials.Shortest
