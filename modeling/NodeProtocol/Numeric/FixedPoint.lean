import NodeProtocol.Numeric.Binary64

namespace NodeProtocol.FixedPoint

def fractionBits : Nat := 64

def one : Nat := 1 <<< fractionBits

def ofInt (n : Int) : Int :=
  n * one

def ofBinary64? (x : Binary64) : Option Int :=
  if x.isFinite then
    let magnitude := x.units * one / Binary64.unitsPerOne
    some (if x.isNegative then -magnitude else magnitude)
  else none

def toBinary64 (n : Int) : Binary64 :=
  Binary64.ofRatio (n < 0) n.natAbs fractionBits

end NodeProtocol.FixedPoint
