import NodeProtocol.Numeric.Binary64
import NodeProtocol.Text.Digit

namespace NodeProtocol

structure Decimal where
  digits : Nat
  exponent : Int
  deriving DecidableEq, Repr

structure RoundingInterval where
  value : Nat
  lower : Nat
  upper : Nat
  denominator : Nat
  closed : Bool

namespace RoundingInterval

/-- The interval of a finite number that is not zero. The gap below a power of two is half the gap
above it. -/
def ofBinary64 (x : Binary64) : RoundingInterval :=
  let step := 1 <<< x.scale
  let below := if x.fraction = 0 ∧ 1 < x.exponent then step else 2 * step
  { value := 4 * x.units
    lower := 4 * x.units - below
    upper := 4 * x.units + 2 * step
    denominator := 4 * Binary64.unitsPerOne
    closed := x.significand % 2 = 0 }

def scaled (i : RoundingInterval) (exponent : Int) : RoundingInterval :=
  { i with
    value := i.value * Nat.pow 10 (-exponent).toNat
    lower := i.lower * Nat.pow 10 (-exponent).toNat
    upper := i.upper * Nat.pow 10 (-exponent).toNat
    denominator := i.denominator * Nat.pow 10 exponent.toNat }

def contains (i : RoundingInterval) (n : Nat) : Bool :=
  if i.closed then i.lower ≤ n * i.denominator && n * i.denominator ≤ i.upper
  else i.lower < n * i.denominator && n * i.denominator < i.upper

def nearest? (i : RoundingInterval) : Option Nat :=
  let floor := i.value / i.denominator
  let floorIsNearer := 2 * i.value < (2 * floor + 1) * i.denominator
  match i.contains floor, i.contains (floor + 1) with
  | true, true => some (if floorIsNearer then floor else floor + 1)
  | true, false => some floor
  | false, true => some (floor + 1)
  | false, false => none

def leadingExponent (i : RoundingInterval) : Int :=
  if i.denominator ≤ i.value then (Nat.toDigits 10 (i.value / i.denominator)).length - 1
  else -((List.range 400).find? fun n => i.denominator ≤ i.value * Nat.pow 10 n).getD 400

end RoundingInterval

namespace Decimal

def roundTrip (x : Binary64) : Decimal :=
  let i := RoundingInterval.ofBinary64 x
  let grids := (List.range 17).map fun n : Nat => i.leadingExponent - n
  let hit := grids.findSome? fun exponent =>
    (i.scaled exponent).nearest?.map fun digits => (⟨digits, exponent⟩ : Decimal)
  hit.getD ⟨0, 0⟩

def text (d : Decimal) : String :=
  let places := (-d.exponent).toNat
  let shown := (Nat.toDigits 10 d.digits ++ List.replicate d.exponent.toNat '0').reverse
  let fraction := shown.take places ++ List.replicate (places - shown.length) '0'
  let whole := shown.drop places
  let kept := fraction.dropWhile (· = '0')
  String.ofList ((if whole.isEmpty then ['0'] else whole.reverse) ++
    if kept.isEmpty then [] else '.' :: kept.reverse)

end Decimal

def Binary64.text (x : Binary64) : String :=
  if x.isNaN then "NaN"
  else
    let sign := if x.isNegative then "-" else ""
    if !x.isFinite then sign ++ "inf"
    else if x.significand = 0 then sign ++ "0"
    else sign ++ (Decimal.roundTrip x).text

end NodeProtocol
