namespace NodeProtocol

abbrev Bytes := List UInt8

abbrev BytesOf (length : Nat) := { bytes : Bytes // bytes.length = length }

namespace BytesOf

def zero (length : Nat) : BytesOf length :=
  ⟨List.replicate length 0, List.length_replicate⟩

def ofBytes? (length : Nat) (bytes : Bytes) : Option (BytesOf length) :=
  if h : bytes.length = length then some ⟨bytes, h⟩ else none

def split? (length : Nat) (bytes : Bytes) : Option (BytesOf length × Bytes) :=
  if h : length ≤ bytes.length then
    some (⟨bytes.take length, List.length_take_of_le h⟩, bytes.drop length)
  else none

def last (length : Nat) (bytes : Bytes) : BytesOf length :=
  ⟨(List.replicate length 0 ++ bytes).drop bytes.length, by simp⟩

end BytesOf

namespace Bytes

def toNat (bytes : Bytes) : Nat :=
  bytes.foldl (fun value byte => 256 * value + byte.toNat) 0

def ofNat : (width : Nat) → Nat → Bytes
  | 0, _ => []
  | width + 1, n => ofNat width (n / 256) ++ [UInt8.ofNat n]

def slice? (bytes : Bytes) (offset width : Nat) : Option Bytes :=
  if offset + width ≤ bytes.length then some ((bytes.drop offset).take width) else none

def takeLast (bytes : Bytes) (width : Nat) : Bytes :=
  bytes.drop (bytes.length - width)

@[simp] theorem toNat_nil : toNat [] = 0 := rfl

theorem toNat_concat (bytes : Bytes) (byte : UInt8) :
    toNat (bytes ++ [byte]) = 256 * toNat bytes + byte.toNat := by
  simp [toNat]

@[simp] theorem length_ofNat (width n : Nat) : (ofNat width n).length = width := by
  induction width generalizing n with
  | zero => rfl
  | succ width ih => simp [ofNat, ih]

theorem toNat_ofNat (width n : Nat) : toNat (ofNat width n) = n % Nat.pow 256 width := by
  induction width generalizing n with
  | zero => simp [ofNat, Nat.mod_one]
  | succ width ih =>
    have power : Nat.pow 256 (width + 1) = 256 * Nat.pow 256 width := Nat.mul_comm ..
    rw [ofNat, toNat_concat, ih, power, Nat.mod_mul]
    simp [Nat.add_comm]

theorem takeLast_of_length_le {bytes : Bytes} {width : Nat} (short : bytes.length ≤ width) :
    bytes.takeLast width = bytes := by
  rw [takeLast, Nat.sub_eq_zero_of_le short, List.drop_zero]

theorem length_slice? {bytes window : Bytes} {offset width : Nat}
    (h : bytes.slice? offset width = some window) : window.length = width := by
  unfold slice? at h
  split at h
  · cases h
    simp only [List.length_take, List.length_drop]
    omega
  · cases h

end Bytes

end NodeProtocol
