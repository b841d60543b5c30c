namespace NodeProtocol.Keccak

abbrev State := Vector UInt64 25

def State.zero : State := Vector.replicate 25 0

def State.lane (a : State) (x y : Nat) : UInt64 :=
  have bound : x % 5 + 5 * (y % 5) < 25 := by omega
  a[x % 5 + 5 * (y % 5)]

def State.ofLanes (lane : (x y : Nat) → UInt64) : State :=
  Vector.ofFn fun i => lane (i.val % 5) (i.val / 5)

def rotateLeft (lane : UInt64) (count : UInt64) : UInt64 :=
  lane <<< count ||| lane >>> (64 - count)

def roundConstants : List UInt64 :=
  [0x0000000000000001, 0x0000000000008082, 0x800000000000808a, 0x8000000080008000,
    0x000000000000808b, 0x0000000080000001, 0x8000000080008081, 0x8000000000008009,
    0x000000000000008a, 0x0000000000000088, 0x0000000080008009, 0x000000008000000a,
    0x000000008000808b, 0x800000000000008b, 0x8000000000008089, 0x8000000000008003,
    0x8000000000008002, 0x8000000000000080, 0x000000000000800a, 0x800000008000000a,
    0x8000000080008081, 0x8000000000008080, 0x0000000080000001, 0x8000000080008008]

def rotationOffsets : Vector UInt64 25 :=
  #v[0, 1, 62, 28, 27,
    36, 44, 6, 55, 20,
    3, 10, 43, 25, 39,
    41, 45, 15, 21, 8,
    18, 2, 61, 56, 14]

def columnParity (a : State) (x : Nat) : UInt64 :=
  a.lane x 0 ^^^ a.lane x 1 ^^^ a.lane x 2 ^^^ a.lane x 3 ^^^ a.lane x 4

def theta (a : State) : State :=
  let parity : Vector UInt64 5 := Vector.ofFn fun x => columnParity a x
  let mix : Vector UInt64 5 := Vector.ofFn fun x =>
    have before : (x.val + 4) % 5 < 5 := by omega
    have after : (x.val + 1) % 5 < 5 := by omega
    parity[(x.val + 4) % 5] ^^^ rotateLeft parity[(x.val + 1) % 5] 1
  Vector.ofFn fun i =>
    have column : i.val % 5 < 5 := by omega
    a[i] ^^^ mix[i.val % 5]

def rho (a : State) : State :=
  Vector.ofFn fun i => rotateLeft a[i] rotationOffsets[i]

def pi (a : State) : State :=
  State.ofLanes fun x y => a.lane (x + 3 * y) x

def chi (a : State) : State :=
  State.ofLanes fun x y => a.lane x y ^^^ (~~~a.lane (x + 1) y &&& a.lane (x + 2) y)

def iota (constant : UInt64) (a : State) : State :=
  a.set 0 (a[0] ^^^ constant)

def round (a : State) (constant : UInt64) : State :=
  iota constant (chi (pi (rho (theta a))))

def permute (a : State) : State :=
  roundConstants.foldl round a

end NodeProtocol.Keccak
