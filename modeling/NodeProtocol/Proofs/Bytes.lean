import Mathlib.Data.List.Induction
import Mathlib.Tactic.Ring
import NodeProtocol.Bytes

namespace NodeProtocol.Bytes

theorem toNat_append (a b : Bytes) : toNat (a ++ b) = toNat a * 256 ^ b.length + toNat b := by
  induction b using List.reverseRecOn with
  | nil => simp
  | append_singleton b byte ih =>
      rw [← List.append_assoc, toNat_concat, ih, toNat_concat, List.length_append,
        List.length_singleton, pow_succ]
      ring

theorem toNat_cons (byte : UInt8) (bytes : Bytes) :
    toNat (byte :: bytes) = byte.toNat * 256 ^ bytes.length + toNat bytes := by
  have single : toNat [byte] = byte.toNat := by simp [toNat]
  rw [← List.singleton_append, toNat_append, single]

theorem toNat_lt (bytes : Bytes) : toNat bytes < 256 ^ bytes.length := by
  induction bytes with
  | nil => simp
  | cons byte bytes ih =>
      have digit : byte.toNat + 1 ≤ 256 := byte.toNat_lt
      rw [toNat_cons, List.length_cons, pow_succ]
      calc byte.toNat * 256 ^ bytes.length + toNat bytes
          < (byte.toNat + 1) * 256 ^ bytes.length := by rw [Nat.add_mul]; omega
        _ ≤ 256 * 256 ^ bytes.length := Nat.mul_le_mul_right _ digit
        _ = 256 ^ bytes.length * 256 := Nat.mul_comm ..

theorem toNat_replicate_zero (n : Nat) : toNat (List.replicate n 0) = 0 := by
  induction n with
  | zero => rfl
  | succ n ih =>
      rw [List.replicate_succ, toNat_cons, ih]
      simp

theorem toNat_replicate_max (n : Nat) : toNat (List.replicate n 0xff) + 1 = 256 ^ n := by
  induction n with
  | zero => rfl
  | succ n ih =>
      have top : (0xff : UInt8).toNat = 255 := rfl
      rw [List.replicate_succ, toNat_cons, List.length_replicate, pow_succ, top]
      omega

theorem toNat_ofNat_of_lt {width n : Nat} (h : n < 256 ^ width) : toNat (ofNat width n) = n := by
  rw [toNat_ofNat]
  exact Nat.mod_eq_of_lt h

theorem takeLast_append {front back : Bytes} {width : Nat} (h : back.length = width) :
    takeLast (front ++ back) width = back := by
  rw [takeLast, List.length_append, h, Nat.add_sub_cancel, List.drop_left]

theorem length_takeLast (bytes : Bytes) (width : Nat) :
    (bytes.takeLast width).length = min bytes.length width := by
  rw [takeLast, List.length_drop]
  omega

def Holds (data : Bytes) (offset : Nat) (window : Bytes) : Prop :=
  ∃ before after, data = before ++ window ++ after ∧ before.length = offset

theorem holds_start (window after : Bytes) : Holds (window ++ after) 0 window :=
  ⟨[], after, rfl, rfl⟩

theorem holds_append {data a b : Bytes} {offset : Nat} (h : Holds data offset (a ++ b)) :
    Holds data offset a ∧ Holds data (offset + a.length) b := by
  obtain ⟨before, after, rfl, rfl⟩ := h
  refine ⟨⟨before, b ++ after, ?_, rfl⟩, ⟨before ++ a, after, ?_, ?_⟩⟩
  · simp only [List.append_assoc]
  · simp only [List.append_assoc]
  · exact List.length_append

theorem Holds.end_le {data window : Bytes} {offset : Nat} (h : Holds data offset window) :
    offset + window.length ≤ data.length := by
  obtain ⟨before, after, rfl, rfl⟩ := h
  simp only [List.length_append]
  omega

theorem holds_replicate {data : Bytes} {offset n length total : Nat} {byte : UInt8}
    (h : Holds data offset (List.replicate total byte)) (inside : n + length ≤ total) :
    Holds data (offset + n) (List.replicate length byte) := by
  have split : List.replicate total byte = List.replicate n byte ++
      (List.replicate length byte ++ List.replicate (total - n - length) byte) := by
    rw [List.replicate_append_replicate, List.replicate_append_replicate]
    congr 1
    omega
  rw [split] at h
  have rest := (holds_append (holds_append h).2).1
  rwa [List.length_replicate] at rest

theorem slice?_eq_some_iff {data window : Bytes} {offset width : Nat} :
    data.slice? offset width = some window ↔
      offset + width ≤ data.length ∧ (data.drop offset).take width = window := by
  rw [slice?, Option.ite_none_right_eq_some, Option.some_inj]

theorem slice?_of_holds {data window : Bytes} {offset width : Nat} (h : Holds data offset window)
    (length : window.length = width) : data.slice? offset width = some window := by
  have inside := h.end_le
  obtain ⟨before, after, rfl, rfl⟩ := h
  subst length
  rw [slice?, if_pos inside, List.append_assoc, List.drop_left, List.take_left]

end NodeProtocol.Bytes
