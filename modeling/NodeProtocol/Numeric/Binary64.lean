namespace NodeProtocol

structure Binary64 where
  bits : UInt64
  deriving DecidableEq, Repr

namespace Binary64

def zero : Binary64 := ⟨0⟩

def isNegative (x : Binary64) : Bool :=
  x.bits >>> 63 = 1

def exponent (x : Binary64) : Nat :=
  (x.bits >>> 52).toNat % 2048

def hiddenBit : Nat := 1 <<< 52

def fraction (x : Binary64) : Nat :=
  x.bits.toNat % hiddenBit

def isFinite (x : Binary64) : Bool :=
  x.exponent != 2047

def isNaN (x : Binary64) : Bool :=
  x.exponent == 2047 && x.fraction != 0

def significand (x : Binary64) : Nat :=
  if x.exponent = 0 then x.fraction else hiddenBit + x.fraction

def scale (x : Binary64) : Nat :=
  x.exponent - 1

def isBelowZero (x : Binary64) : Bool :=
  x.isNegative && !x.isNaN && (x.exponent != 0 || x.fraction != 0)

def unitsPerOne : Nat := 1 <<< 1074

def units (x : Binary64) : Nat :=
  x.significand <<< x.scale

/-- The number `magnitude / 2 ^ shift`, rounded to 53 significant bits, a half to the even
neighbour. The result is exact in range as long as `shift` and the size of `magnitude` stay far
below a thousand. -/
def ofRatio (negative : Bool) (magnitude shift : Nat) : Binary64 :=
  if magnitude = 0 then zero
  else
    let extra := magnitude.log2 - 52
    let kept := magnitude <<< (52 - magnitude.log2) >>> extra
    let lost := magnitude % (1 <<< extra)
    let up := 2 * lost > 1 <<< extra ∨ (2 * lost = 1 <<< extra ∧ kept % 2 = 1)
    let rounded := if up then kept + 1 else kept
    let field := magnitude.log2 + 1022 - shift
    ⟨UInt64.ofNat ((if negative then 1 <<< 63 else 0) + field * hiddenBit + rounded)⟩

end Binary64

end NodeProtocol
