import Mathlib.Algebra.Group.Fin.Basic
import Mathlib.Data.Fintype.Pi
import Mathlib.Data.Nat.Bitwise
import NodeProtocol.Keccak.Permutation

/-!
# The permutation, bit by bit

The textbook permutation of 1600 bits, `Bits.permute`: the state is a box of five columns, five
rows and 64 depths, whose coordinates wrap around, and every step says what one bit becomes. The
offsets of rho come from a walk through the lanes, and the round constants from a shift register.

* `State.bits` is the view of a state as such a box (`State.bits_injective`,
  `State.bits_surjective`), and `laneBit` that of one lane, the bit of least weight first.
* `bits_theta`, `bits_rho`, `bits_pi`, `bits_chi` and `bits_iota`: a step on lanes is the step on
  bits.
* `rotationOffsets_eq` and `roundConstants_eq`: the two tables hold what the walk and the register
  generate.
* `bits_permute` and `permute_eq_bitwise`: all rounds.
-/

namespace NodeProtocol.Keccak

/-! ## The construction -/

abbrev Bits := Fin 5 → Fin 5 → Fin 64 → Bool

namespace Bits

def parity (a : Bits) (x : Fin 5) (z : Fin 64) : Bool :=
  a x 0 z ^^ a x 1 z ^^ a x 2 z ^^ a x 3 z ^^ a x 4 z

def theta (a : Bits) : Bits := fun x y z =>
  a x y z ^^ (a.parity (x - 1) z ^^ a.parity (x + 1) (z - 1))

def walk : Nat → Fin 5 × Fin 5
  | 0 => (1, 0)
  | t + 1 => ((walk t).2, 2 * (walk t).1 + 3 * (walk t).2)

def triangle (t : Nat) : Nat :=
  (t + 1) * (t + 2) / 2

def turnLane (a turned : Bits) (t : Nat) : Bits := fun x y z =>
  if walk t = (x, y) then a x y (z - Fin.ofNat 64 (triangle t)) else turned x y z

def rho (a : Bits) : Bits :=
  (List.range 24).foldl a.turnLane a

def pi (a : Bits) : Bits := fun x y z =>
  a (x + 3 * y) x z

def chi (a : Bits) : Bits := fun x y z =>
  a x y z ^^ (!a (x + 1) y z && a (x + 2) y z)

/-- The coefficients of x⁸ + x⁶ + x⁵ + x⁴ + 1. -/
def feedback : BitVec 9 := 0b101110001

def register : Nat → BitVec 8
  | 0 => 1
  | t + 1 =>
    let shifted := (register t).zeroExtend 9 <<< 1
    (if shifted.getLsbD 8 then shifted ^^^ feedback else shifted).truncate 8

def roundBit (number : Nat) (z : Fin 64) : Bool :=
  (List.range 7).any fun j => z.val = 2 ^ j - 1 && (register (j + 7 * number)).getLsbD 0

def iota (number : Nat) (a : Bits) : Bits := fun x y z =>
  if x = 0 ∧ y = 0 then a x y z ^^ roundBit number z else a x y z

def round (a : Bits) (number : Nat) : Bits :=
  a.theta.rho.pi.chi.iota number

def permute (a : Bits) : Bits :=
  (List.range 24).foldl round a

end Bits

def laneBit (lane : UInt64) (z : Fin 64) : Bool :=
  lane.toBitVec.getLsbD z

def laneOf (bits : Fin 64 → Bool) : UInt64 :=
  .ofNat (Nat.ofBits bits)

def State.bits (a : State) : Bits := fun x y z =>
  laneBit (a.lane x y) z

/-! ## Bits of a lane -/

section Lanes

variable (a b : UInt64) (z : Fin 64)

theorem laneBit_xor : laneBit (a ^^^ b) z = (laneBit a z ^^ laneBit b z) := by
  rw [laneBit, UInt64.toBitVec_xor, BitVec.getLsbD_xor]
  rfl

theorem laneBit_and : laneBit (a &&& b) z = (laneBit a z && laneBit b z) := by
  rw [laneBit, UInt64.toBitVec_and, BitVec.getLsbD_and]
  rfl

theorem laneBit_not : laneBit (~~~a) z = !laneBit a z := by
  rw [laneBit, UInt64.toBitVec_not, BitVec.getLsbD_not, decide_eq_true z.isLt, Bool.true_and]
  rfl

theorem laneBit_laneOf (bits : Fin 64 → Bool) : laneBit (laneOf bits) z = bits z := by
  have read : (BitVec.ofNat 64 (Nat.ofBits bits)).getLsbD z = bits z := by
    rw [BitVec.getLsbD_ofNat, decide_eq_true z.isLt, Bool.true_and,
      Nat.testBit_ofBits_lt _ _ z.isLt]
  exact read

theorem lane_ext {a b : UInt64} (h : laneBit a = laneBit b) : a = b := by
  apply UInt64.toBitVec_inj.mp
  apply BitVec.eq_of_getLsbD_eq
  intro z bound
  exact congrFun h ⟨z, bound⟩

theorem laneBit_rotateLeft (count : UInt64) :
    laneBit (rotateLeft a count) z = laneBit a (z - Fin.ofNat 64 count.toNat) := by
  have left : (count.toBitVec % 64).toNat = count.toNat % 64 := rfl
  have right : ((64 - count).toBitVec % 64).toNat = (64 - count.toNat % 64) % 64 := by
    have bound := count.toNat_lt
    rw [UInt64.toBitVec_sub, BitVec.toNat_umod, BitVec.toNat_sub]
    change (2 ^ 64 - count.toNat + 64) % 2 ^ 64 % 64 = _
    omega
  have source : (z - Fin.ofNat 64 count.toNat).val = (64 - count.toNat % 64 + z.val) % 64 := by
    rw [Fin.val_sub, Fin.val_ofNat]
  have depth := z.isLt
  have turn : count.toNat % 64 < 64 := Nat.mod_lt _ (by decide)
  rw [laneBit, laneBit, rotateLeft, UInt64.toBitVec_or, BitVec.getLsbD_or,
    UInt64.toBitVec_shiftLeft, UInt64.toBitVec_shiftRight, BitVec.getLsbD_shiftLeft',
    BitVec.ushiftRight_eq', BitVec.getLsbD_ushiftRight, left, right, source]
  rcases Nat.lt_or_ge z.val (count.toNat % 64) with below | above
  · have wraps : (64 - count.toNat % 64 + z.val) % 64 = (64 - count.toNat % 64) % 64 + z.val := by
      omega
    simp [below, wraps]
  · have stays : (64 - count.toNat % 64 + z.val) % 64 = z.val - count.toNat % 64 := by omega
    rw [stays]
    -- Turned by nothing at all, both shifts keep the whole lane.
    by_cases still : count.toNat % 64 = 0
    · simp [still]
    · rw [BitVec.getLsbD_of_ge _ ((64 - count.toNat % 64) % 64 + z.val) (by omega)]
      simp [Nat.not_lt_of_le above]

end Lanes

/-! ## Lanes of a state -/

namespace State

theorem lane_eq_getElem (a : State) (x y : Fin 5) : a.lane x y = a[x.val + 5 * y.val] := by
  simp only [lane, Nat.mod_eq_of_lt x.isLt, Nat.mod_eq_of_lt y.isLt]

theorem lane_ofFn (lane : Fin 25 → UInt64) (x y : Fin 5) :
    State.lane (Vector.ofFn lane) x y = lane ⟨x + 5 * y, by omega⟩ := by
  rw [lane_eq_getElem, Vector.getElem_ofFn]

theorem lane_ofLanes (lane : (x y : Nat) → UInt64) (x y : Fin 5) :
    (State.ofLanes lane).lane x y = lane x y := by
  have column : (x.val + 5 * y.val) % 5 = x := by omega
  have row : (x.val + 5 * y.val) / 5 = y := by omega
  rw [ofLanes, lane_ofFn, column, row]

theorem lane_mod (a : State) (x y : Nat) : a.lane (x % 5) y = a.lane x y := by
  simp only [lane, Nat.mod_mod]

theorem bits_injective : Function.Injective State.bits := by
  intro a b same
  apply Vector.ext
  intro i bound
  have lanes : a.lane (i % 5) (i / 5) = b.lane (i % 5) (i / 5) :=
    lane_ext (congrFun (congrFun same ⟨i % 5, by omega⟩) ⟨i / 5, by omega⟩)
  have index : i % 5 % 5 + 5 * (i / 5 % 5) = i := by omega
  simpa only [lane, index] using lanes

theorem bits_surjective : Function.Surjective State.bits := by
  intro bits
  refine ⟨ofLanes fun x y => laneOf (bits (Fin.ofNat 5 x) (Fin.ofNat 5 y)), ?_⟩
  funext x y z
  rw [State.bits, lane_ofLanes, laneBit_laneOf, Fin.ofNat_val_eq_self, Fin.ofNat_val_eq_self]

end State

/-! ## Steps -/

theorem laneBit_columnParity (a : State) (x : Fin 5) (z : Fin 64) :
    laneBit (columnParity a x) z = a.bits.parity x z := by
  simp only [columnParity, laneBit_xor]
  rfl

theorem bits_theta (a : State) : (theta a).bits = a.bits.theta := by
  funext x y z
  have lane : (theta a).lane x y = a.lane x y ^^^
      (columnParity a (x - 1 : Fin 5) ^^^ rotateLeft (columnParity a (x + 1 : Fin 5)) 1) := by
    have column : (x.val + 5 * y.val) % 5 = x := by omega
    have before : (x.val + 4) % 5 = (x - 1 : Fin 5).val := by rw [Fin.val_sub]; omega
    have after : (x.val + 1) % 5 = (x + 1 : Fin 5).val := by rw [Fin.val_add]; rfl
    rw [theta, State.lane_ofFn, State.lane_eq_getElem]
    simp only [Vector.getElem_ofFn, column, before, after]
    rfl
  rw [State.bits, lane, laneBit_xor, laneBit_xor, laneBit_rotateLeft, laneBit_columnParity,
    laneBit_columnParity]
  rfl

namespace Bits

def turnStep (offset : Fin 5 → Fin 5 → Nat) (t : Nat) : Fin 5 → Fin 5 → Nat := fun x y =>
  if walk t = (x, y) then triangle t else offset x y

def offset : Fin 5 → Fin 5 → Nat :=
  (List.range 24).foldl turnStep fun _ _ => 0

theorem foldl_turnLane (a turned : Bits) {offset : Fin 5 → Fin 5 → Nat}
    (h : ∀ x y z, turned x y z = a x y (z - Fin.ofNat 64 (offset x y))) (times : List Nat)
    (x y : Fin 5) (z : Fin 64) :
    times.foldl a.turnLane turned x y z =
      a x y (z - Fin.ofNat 64 (times.foldl turnStep offset x y)) := by
  induction times generalizing turned offset with
  | nil => exact h x y z
  | cons t times ih =>
      refine ih (a.turnLane turned t) ?_
      intro x y z
      rw [turnLane, turnStep]
      split
      · rfl
      · exact h x y z

theorem rho_apply (a : Bits) (x y : Fin 5) (z : Fin 64) :
    a.rho x y z = a x y (z - Fin.ofNat 64 (offset x y)) := by
  refine a.foldl_turnLane a ?_ _ x y z
  intro x y z
  rw [Fin.ofNat_zero, sub_zero]

end Bits

theorem rotationOffsets_eq (x y : Fin 5) :
    Fin.ofNat 64 rotationOffsets[x.val + 5 * y.val].toNat = Fin.ofNat 64 (Bits.offset x y) := by
  revert x y
  decide +kernel

theorem bits_rho (a : State) : (rho a).bits = a.bits.rho := by
  funext x y z
  have lane : (rho a).lane x y = rotateLeft (a.lane x y) rotationOffsets[x.val + 5 * y.val] := by
    rw [rho, State.lane_ofFn, State.lane_eq_getElem]
    rfl
  rw [State.bits, lane, laneBit_rotateLeft, rotationOffsets_eq, Bits.rho_apply]
  rfl

theorem bits_pi (a : State) : (pi a).bits = a.bits.pi := by
  funext x y z
  have column : (x.val + 3 * y.val) % 5 = (x + 3 * y : Fin 5).val := by
    rw [Fin.val_add, Fin.val_mul]
    omega
  rw [State.bits, pi, State.lane_ofLanes, ← State.lane_mod, column]
  rfl

theorem bits_chi (a : State) : (chi a).bits = a.bits.chi := by
  funext x y z
  have next : (x.val + 1) % 5 = (x + 1 : Fin 5).val := by rw [Fin.val_add]; rfl
  have second : (x.val + 2) % 5 = (x + 2 : Fin 5).val := by rw [Fin.val_add]; rfl
  rw [State.bits, chi, State.lane_ofLanes, laneBit_xor, laneBit_and, laneBit_not,
    ← State.lane_mod a (x + 1), ← State.lane_mod a (x + 2), next, second]
  rfl

theorem bits_iota (a : State) (number : Nat) :
    (iota (laneOf (Bits.roundBit number)) a).bits = a.bits.iota number := by
  funext x y z
  rw [State.bits, State.lane_eq_getElem, iota, Vector.getElem_set, Bits.iota]
  by_cases origin : x = 0 ∧ y = 0
  · obtain ⟨rfl, rfl⟩ := origin
    rw [if_pos (And.intro rfl rfl)]
    exact (laneBit_xor ..).trans (congrArg _ (laneBit_laneOf ..))
  · have elsewhere : ¬ 0 = x.val + 5 * y.val := by omega
    rw [if_neg origin, if_neg elsewhere, State.bits, State.lane_eq_getElem]

/-! ## Rounds -/

theorem bits_round (a : State) (number : Nat) :
    (round a (laneOf (Bits.roundBit number))).bits = a.bits.round number := by
  rw [round, bits_iota, bits_chi, bits_pi, bits_rho, bits_theta, Bits.round]

theorem roundConstants_eq :
    roundConstants = (List.range 24).map fun number => laneOf (Bits.roundBit number) := by
  decide +kernel

theorem bits_permute (a : State) : (permute a).bits = a.bits.permute := by
  rw [permute, roundConstants_eq, List.foldl_map, Bits.permute]
  exact (List.foldl_hom State.bits fun a number => (bits_round a number).symm).symm

/-- Lanes and bits are two views of the same states, and both permutations are one. -/
theorem permute_eq_bitwise :
    Function.Bijective State.bits ∧ ∀ a : State, (permute a).bits = a.bits.permute :=
  ⟨⟨State.bits_injective, State.bits_surjective⟩, bits_permute⟩

end NodeProtocol.Keccak
