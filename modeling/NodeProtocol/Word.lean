import NodeProtocol.Bytes

namespace NodeProtocol.Word

def size : Nat := 16

def wideSize : Nat := 32

def modulus : Nat := 1 <<< 128

def signedBound : Nat := 1 <<< 127

/-- Positions in memory lie below `2 ^ 64`. -/
def positionBound : Nat := 1 <<< 64

def roundUp (n unit : Nat) : Nat :=
  if unit = 0 then n else (n + (unit - 1)) / unit * unit

/-- A string that is already longer than `width` stays as it is. -/
def padLeft (bytes : Bytes) (width : Nat) (fill : UInt8) : Bytes :=
  List.replicate (width - bytes.length) fill ++ bytes

def padRight (bytes : Bytes) (unit : Nat) : Bytes :=
  bytes ++ List.replicate (roundUp bytes.length unit - bytes.length) 0

def ofUnsigned (value width : Nat) : Bytes :=
  padLeft (Bytes.ofNat size value) width 0

def write (buffer : Bytes) (start value width : Nat) : Bytes :=
  buffer.take start ++ (ofUnsigned value width).takeLast width ++ buffer.drop (start + width)

def read? (data : Bytes) (offset width : Nat) : Option Bytes :=
  data.slice? offset width

def toUnsigned (word : Bytes) : Nat :=
  Bytes.toNat (word.takeLast size)

def toSigned (word : Bytes) : Int :=
  Int.bmod (toUnsigned word) modulus

def toPosition? (word : Bytes) : Option Nat :=
  if (word.take (word.length - size)).any (· ≠ 0) then none
  else if toUnsigned word < positionBound then some (toUnsigned word)
  else none

def unsignedBytes (value width : Nat) : Bytes :=
  Bytes.ofNat (min width size) value

def signedBytes (value : Int) (width : Nat) : Bytes :=
  unsignedBytes (value % modulus).toNat width

end NodeProtocol.Word
