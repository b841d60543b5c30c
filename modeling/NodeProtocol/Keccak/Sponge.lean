import NodeProtocol.Bytes
import NodeProtocol.Keccak.Permutation
import NodeProtocol.Text.Digit

namespace NodeProtocol.Keccak

def stateLength : Nat := 200

def digestRateBits : Nat := 1088

inductive RateError
  | invalidRate (bits : Nat)
  deriving DecidableEq, Repr

def RateError.message : RateError → String
  | invalidRate bits => "Invalid sponge rate: " ++ Text.decimal bits ++ " bits"

def State.xorByte (a : State) (index : Nat) (byte : UInt8) : State :=
  if h : index / 8 < 25 then
    a.set (index / 8) (a[index / 8] ^^^ byte.toUInt64 <<< UInt64.ofNat (8 * (index % 8)))
  else a

def State.byte (a : State) (index : Nat) : UInt8 :=
  if h : index / 8 < 25 then (a[index / 8] >>> UInt64.ofNat (8 * (index % 8))).toUInt8 else 0

structure Sponge where
  state : State
  rate : Nat
  position : Nat
  rate_lt : rate < stateLength
  position_lt : position < rate

namespace Sponge

def withRate (bits : Nat) : Except RateError Sponge :=
  if h : bits ≠ 0 ∧ bits % 8 = 0 ∧ bits < stateLength * 8 then
    .ok ⟨State.zero, bits / 8, 0, by omega, by omega⟩
  else .error (.invalidRate bits)

def digest : Sponge :=
  ⟨State.zero, digestRateBits / 8, 0, by decide, by decide⟩

def absorbByte (sponge : Sponge) (byte : UInt8) : Sponge :=
  let state := sponge.state.xorByte sponge.position byte
  if h : sponge.position + 1 < sponge.rate then
    { sponge with state, position := sponge.position + 1, position_lt := h }
  else
    { sponge with
      state := permute state
      position := 0
      position_lt := Nat.zero_lt_of_lt sponge.position_lt }

def absorb (sponge : Sponge) (bytes : Bytes) : Sponge :=
  bytes.foldl absorbByte sponge

def pad (sponge : Sponge) : State :=
  permute ((sponge.state.xorByte sponge.position 0x01).xorByte (sponge.rate - 1) 0x80)

def squeezeFrom (rate : Nat) (state : State) (position : Nat) : (count : Nat) → Bytes
  | 0 => []
  | count + 1 =>
    if position < rate then state.byte position :: squeezeFrom rate state (position + 1) count
    else
      let state := permute state
      state.byte 0 :: squeezeFrom rate state 1 count

def squeeze (sponge : Sponge) (count : Nat) : Bytes :=
  squeezeFrom sponge.rate sponge.pad 0 count

theorem length_squeezeFrom (rate : Nat) (state : State) (position count : Nat) :
    (squeezeFrom rate state position count).length = count := by
  induction count generalizing state position with
  | zero => rfl
  | succ count ih =>
    rw [squeezeFrom]
    split <;> simp [ih]

theorem length_squeeze (sponge : Sponge) (count : Nat) :
    (sponge.squeeze count).length = count :=
  length_squeezeFrom ..

end Sponge

end NodeProtocol.Keccak
