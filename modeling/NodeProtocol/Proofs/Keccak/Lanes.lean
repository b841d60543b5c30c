import Mathlib.Data.Vector.Basic
import NodeProtocol.Keccak.Sponge
import NodeProtocol.Proofs.Bytes

namespace NodeProtocol.Keccak

def littleEndian (bytes : Bytes) : Nat :=
  Bytes.toNat bytes.reverse

def laneBytes (lane : UInt64) : Bytes :=
  (Bytes.ofNat 8 lane.toNat).reverse

namespace State

def bytes (a : State) : Bytes :=
  a.toList.flatMap laneBytes

def addBlock (block : Bytes) (a : State) : State :=
  a.mapIdx fun i lane => lane ^^^ UInt64.ofNat (littleEndian ((block.drop (8 * i)).take 8))

end State

theorem getElem?_reverse_ofNat (width n index : Nat) :
    (Bytes.ofNat width n).reverse[index]? =
      if index < width then some (UInt8.ofNat (n / 256 ^ index)) else none := by
  induction width generalizing n index with
  | zero => rfl
  | succ width ih =>
      rw [Bytes.ofNat, List.reverse_append, List.reverse_singleton, List.singleton_append]
      cases index with
      | zero => simp
      | succ index =>
          rw [List.getElem?_cons_succ, ih, Nat.div_div_eq_div_mul, ← pow_succ']
          simp only [Nat.add_lt_add_iff_right]

theorem getElem?_flatMap {α β : Type} {f : α → List β} {width : Nat}
    (h : ∀ a, (f a).length = width) (positive : 0 < width) (items : List α) (index : Nat) :
    (items.flatMap f)[index]? = items[index / width]?.bind fun a => (f a)[index % width]? := by
  induction items generalizing index with
  | nil => simp
  | cons item items ih =>
      rw [List.flatMap_cons]
      by_cases inside : index < width
      · rw [List.getElem?_append_left (h item ▸ inside), Nat.div_eq_of_lt inside,
          Nat.mod_eq_of_lt inside]
        rfl
      · have beyond : width ≤ index := Nat.le_of_not_lt inside
        rw [List.getElem?_append_right (h item ▸ beyond), h, ih, Nat.div_eq_sub_div positive beyond,
          Nat.mod_eq_sub_mod beyond, List.getElem?_cons_succ]

@[simp] theorem length_laneBytes (lane : UInt64) : (laneBytes lane).length = 8 := by
  rw [laneBytes, List.length_reverse, Bytes.length_ofNat]

theorem getElem?_laneBytes (lane : UInt64) {index : Nat} (h : index < 8) :
    (laneBytes lane)[index]? = some (lane >>> UInt64.ofNat (8 * index)).toUInt8 := by
  have shift : (UInt64.ofNat (8 * index)).toNat = 8 * index :=
    UInt64.toNat_ofNat_of_lt' (by rw [UInt64.size]; omega)
  have small : 8 * index % 64 = 8 * index := Nat.mod_eq_of_lt (by omega)
  have power : 256 ^ index = 2 ^ (8 * index) := by rw [pow_mul]; rfl
  rw [laneBytes, getElem?_reverse_ofNat, if_pos h, Option.some_inj, ← UInt8.toNat_inj,
    UInt8.toNat_ofNat', UInt64.toNat_toUInt8, UInt64.toNat_shiftRight, shift, small,
    Nat.shiftRight_eq_div_pow, power]

theorem State.getElem?_bytes (a : State) {index : Nat} (h : index < stateLength) :
    a.bytes[index]? = some (a.byte index) := by
  have lane : index / 8 < 25 := by rw [stateLength] at h; omega
  rw [bytes, getElem?_flatMap length_laneBytes (by decide), Vector.getElem?_toList,
    Vector.getElem?_eq_getElem lane, Option.bind_some,
    getElem?_laneBytes _ (Nat.mod_lt _ (by decide)), byte, dif_pos lane]

theorem State.length_bytes (a : State) : a.bytes.length = stateLength := by
  simp [bytes, List.length_flatMap, stateLength]

theorem mul_two_pow_add_eq_xor {low count : Nat} (h : low < 2 ^ count) (high : Nat) :
    high * 2 ^ count + low = high <<< count ^^^ low := by
  rw [← Nat.shiftLeft_eq, Nat.shiftLeft_add_eq_or_of_lt h]
  apply Nat.eq_of_testBit_eq
  intro index
  rw [Nat.testBit_or, Nat.testBit_xor, Nat.testBit_shiftLeft]
  by_cases below : index < count
  · simp [Nat.not_le_of_lt below]
  · have zero : low.testBit index = false :=
      Nat.testBit_lt_two_pow (h.trans_le (Nat.pow_le_pow_right (by decide) (Nat.le_of_not_lt below)))
    simp [zero]

theorem littleEndian_concat (low : Bytes) (byte : UInt8) :
    littleEndian (low ++ [byte]) = byte.toNat <<< (8 * low.length) ^^^ littleEndian low := by
  have power : 256 ^ low.length = 2 ^ (8 * low.length) := by rw [pow_mul]; rfl
  have bound := Bytes.toNat_lt low.reverse
  rw [List.length_reverse, power] at bound
  rw [littleEndian, List.reverse_append, List.reverse_singleton, List.singleton_append,
    Bytes.toNat_cons, List.length_reverse, power, mul_two_pow_add_eq_xor bound, littleEndian]

theorem window_concat (block : Bytes) (byte : UInt8) (index : Nat) :
    ((block ++ [byte]).drop (8 * index)).take 8 =
      if index = block.length / 8 then (block.drop (8 * index)).take 8 ++ [byte]
      else (block.drop (8 * index)).take 8 := by
  rcases Nat.lt_trichotomy index (block.length / 8) with before | here | after
  · rw [if_neg (Nat.ne_of_lt before), List.drop_append_of_le_length (by omega),
      List.take_append_of_le_length (by rw [List.length_drop]; omega)]
  · have short : (block.drop (8 * index)).length < 8 := by rw [List.length_drop]; omega
    rw [if_pos here, List.drop_append_of_le_length (by omega),
      List.take_of_length_le (Nat.le_of_lt short), List.take_of_length_le]
    rw [List.length_append, List.length_singleton]
    omega
  · have beyond : block.length + 1 ≤ 8 * index := by omega
    rw [if_neg (Nat.ne_of_gt after), List.drop_eq_nil_of_le, List.drop_eq_nil_of_le (by omega)]
    rwa [List.length_append, List.length_singleton]

namespace State

theorem getElem_addBlock (a : State) (block : Bytes) {index : Nat} (h : index < 25) :
    (a.addBlock block)[index] =
      a[index] ^^^ UInt64.ofNat (littleEndian ((block.drop (8 * index)).take 8)) := by
  rw [addBlock, Vector.getElem_mapIdx]

theorem addBlock_nil (a : State) : a.addBlock [] = a := by
  apply Vector.ext
  intro index bound
  rw [getElem_addBlock a [] bound, List.drop_nil, List.take_nil]
  exact UInt64.xor_zero

theorem addBlock_concat (a : State) {block : Bytes} (h : block.length < stateLength)
    (byte : UInt8) : a.addBlock (block ++ [byte]) = (a.addBlock block).xorByte block.length byte := by
  have lane : block.length / 8 < 25 := by rw [stateLength] at h; omega
  have offset : ((block.drop (8 * (block.length / 8))).take 8).length = block.length % 8 := by
    rw [List.length_take, List.length_drop]
    omega
  apply Vector.ext
  intro index bound
  rw [xorByte, dif_pos lane, Vector.getElem_set, getElem_addBlock _ _ bound,
    getElem_addBlock _ _ lane, getElem_addBlock _ _ bound, window_concat]
  by_cases same : index = block.length / 8
  · subst same
    rw [if_pos rfl, if_pos rfl, littleEndian_concat, offset, UInt64.ofNat_xor,
      UInt64.ofNat_shiftLeft _ _ (by omega), UInt64.ofNat_uInt8ToNat, UInt64.xor_assoc]
    congr 1
    exact UInt64.xor_comm _ _
  · rw [if_neg same, if_neg (Ne.symm same)]

theorem xorByte_zero (a : State) (index : Nat) : a.xorByte index 0 = a := by
  rw [xorByte]
  split
  · simp
  · rfl

theorem xorByte_xorByte (a : State) (index : Nat) (x y : UInt8) :
    (a.xorByte index x).xorByte index y = a.xorByte index (x ^^^ y) := by
  by_cases lane : index / 8 < 25
  · simp only [xorByte, dif_pos lane, Vector.getElem_set_self, Vector.set_set, UInt8.toUInt64_xor,
      UInt64.shiftLeft_xor, UInt64.xor_assoc]
  · simp only [xorByte, dif_neg lane]

theorem addBlock_zeros (a : State) {block : Bytes} {count : Nat}
    (h : block.length + count ≤ stateLength) :
    a.addBlock (block ++ List.replicate count 0) = a.addBlock block := by
  induction count with
  | zero => rw [List.replicate_zero, List.append_nil]
  | succ count ih =>
      rw [List.replicate_succ', ← List.append_assoc, addBlock_concat, xorByte_zero,
        ih (by omega)]
      rw [List.length_append, List.length_replicate]
      omega

end State

end NodeProtocol.Keccak
