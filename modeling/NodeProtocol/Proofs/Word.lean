import Mathlib.Tactic.Ring
import Mathlib.Tactic.NormNum
import NodeProtocol.Proofs.Bytes
import NodeProtocol.Word

namespace NodeProtocol.Word

theorem modulus_eq : modulus = 256 ^ 16 := by
  norm_num [modulus, Nat.shiftLeft_eq]

theorem positionBound_lt : positionBound < 256 ^ 16 := by
  norm_num [positionBound, Nat.shiftLeft_eq]

theorem length_padLeft {bytes : Bytes} {width : Nat} {fill : UInt8} (h : bytes.length ≤ width) :
    (padLeft bytes width fill).length = width := by
  rw [padLeft, List.length_append, List.length_replicate, Nat.sub_add_cancel h]

theorem length_ofUnsigned {value width : Nat} (h : size ≤ width) :
    (ofUnsigned value width).length = width := by
  apply length_padLeft
  rw [Bytes.length_ofNat]
  exact h

theorem length_unsignedBytes {value width : Nat} (h : width ≤ size) :
    (unsignedBytes value width).length = width := by
  rw [unsignedBytes, Bytes.length_ofNat, Nat.min_eq_left h]

theorem length_signedBytes {value : Int} {width : Nat} (h : width ≤ size) :
    (signedBytes value width).length = width :=
  length_unsignedBytes h

theorem roundUp_mul (unit n : Nat) : roundUp (unit * n) unit = unit * n := by
  unfold roundUp
  split
  · rfl
  · rename_i h
    have div : (unit * n + (unit - 1)) / unit = n := by
      rw [Nat.mul_add_div (Nat.pos_of_ne_zero h), Nat.div_eq_of_lt (by omega), Nat.add_zero]
    rw [div, Nat.mul_comm]

theorem le_roundUp (n unit : Nat) : n ≤ roundUp n unit := by
  unfold roundUp
  split
  · exact Nat.le_refl _
  · have division := Nat.div_add_mod' (n + (unit - 1)) unit
    have remainder := Nat.mod_lt (n + (unit - 1)) (y := unit) (by omega)
    omega

theorem length_padRight (bytes : Bytes) (unit : Nat) :
    (padRight bytes unit).length = roundUp bytes.length unit := by
  rw [padRight, List.length_append, List.length_replicate, Nat.add_sub_cancel' (le_roundUp _ _)]

theorem ofUnsigned_zero {width : Nat} (wide : size ≤ width) :
    ofUnsigned 0 width = List.replicate width 0 := by
  have low : Bytes.ofNat size 0 = List.replicate size 0 := by decide
  rw [ofUnsigned, padLeft, low, List.length_replicate, List.replicate_append_replicate,
    Nat.sub_add_cancel wide]

theorem toUnsigned_replicate_zero (width : Nat) : toUnsigned (List.replicate width 0) = 0 := by
  rw [toUnsigned, Bytes.takeLast, List.drop_replicate, Bytes.toNat_replicate_zero]

theorem toUnsigned_padLeft {bytes : Bytes} {width : Nat} {fill : UInt8} (h : bytes.length ≤ size)
    (wide : size ≤ width) :
    toUnsigned (padLeft bytes width fill) =
      Bytes.toNat (List.replicate (size - bytes.length) fill) * 256 ^ bytes.length +
        Bytes.toNat bytes := by
  have low : padLeft bytes width fill =
      List.replicate (width - size) fill ++
        (List.replicate (size - bytes.length) fill ++ bytes) := by
    rw [padLeft, ← List.append_assoc, List.replicate_append_replicate]
    congr 2
    omega
  rw [toUnsigned, low, Bytes.takeLast_append, Bytes.toNat_append]
  rw [List.length_append, List.length_replicate, Nat.sub_add_cancel h]

theorem toUnsigned_padLeft_zero {bytes : Bytes} {width : Nat} (h : bytes.length ≤ size)
    (wide : size ≤ width) : toUnsigned (padLeft bytes width 0) = Bytes.toNat bytes := by
  rw [toUnsigned_padLeft h wide, Bytes.toNat_replicate_zero, Nat.zero_mul, Nat.zero_add]

theorem toUnsigned_ofUnsigned {value width : Nat} (h : value < modulus) (wide : size ≤ width) :
    toUnsigned (ofUnsigned value width) = value := by
  have short : (Bytes.ofNat size value).length ≤ size := by rw [Bytes.length_ofNat]
  rw [ofUnsigned, toUnsigned_padLeft_zero short wide, Bytes.toNat_ofNat_of_lt]
  exact modulus_eq ▸ h

theorem toPosition?_ofUnsigned {value width : Nat} (h : value < positionBound)
    (wide : size ≤ width) : toPosition? (ofUnsigned value width) = some value := by
  have high : (ofUnsigned value width).take ((ofUnsigned value width).length - size) =
      List.replicate (width - size) 0 := by
    rw [length_ofUnsigned wide, ofUnsigned, padLeft, Bytes.length_ofNat]
    exact List.take_left' List.length_replicate
  have low : toUnsigned (ofUnsigned value width) = value :=
    toUnsigned_ofUnsigned (modulus_eq ▸ h.trans positionBound_lt) wide
  rw [toPosition?, high, low, if_pos h]
  simp

theorem toUnsigned_padLeft_unsignedBytes {value bytes width : Nat} (narrow : bytes ≤ size)
    (wide : size ≤ width) (h : value < 256 ^ bytes) :
    toUnsigned (padLeft (unsignedBytes value bytes) width 0) = value := by
  have short : (unsignedBytes value bytes).length ≤ size := by
    rw [length_unsignedBytes narrow]
    exact narrow
  rw [toUnsigned_padLeft_zero short wide, unsignedBytes, Nat.min_eq_left narrow,
    Bytes.toNat_ofNat_of_lt h]

theorem toNat_signedBytes (value : Int) {bytes : Nat} (narrow : bytes ≤ size) :
    (Bytes.toNat (signedBytes value bytes) : Int) = value % 256 ^ bytes := by
  have divides : (256 ^ bytes : Int) ∣ (modulus : Nat) := by
    rw [modulus_eq]
    exact_mod_cast pow_dvd_pow 256 narrow
  have nonnegative : 0 ≤ value % (modulus : Nat) := Int.emod_nonneg _ (by decide)
  rw [signedBytes, unsignedBytes, Nat.min_eq_left narrow, Bytes.toNat_ofNat, Nat.pow_eq]
  push_cast
  rw [Int.toNat_of_nonneg nonnegative, Int.emod_emod_of_dvd _ divides]

theorem emod_of_signed {value : Int} {half : Nat} (low : -half ≤ value) (high : value < half) :
    value % (2 * half) = if value < 0 then value + 2 * half else value := by
  split
  · rw [← Int.add_emod_right, Int.emod_eq_of_lt] <;> omega
  · rw [Int.emod_eq_of_lt] <;> omega

theorem head?_signedBytes {value : Int} {bytes : Nat} (narrow : bytes + 1 ≤ size)
    (low : -(128 * 256 ^ bytes : Nat) ≤ value) (high : value < (128 * 256 ^ bytes : Nat)) :
    (signedBytes value (bytes + 1)).head?.any (0x80 ≤ ·) = decide (value < 0) := by
  have number := toNat_signedBytes value narrow
  have length : (signedBytes value (bytes + 1)).length = bytes + 1 := length_signedBytes narrow
  cases form : signedBytes value (bytes + 1) with
  | nil => simp [form] at length
  | cons first rest =>
      rw [form, List.length_cons, Nat.add_right_cancel_iff] at length
      have rest_lt := Bytes.toNat_lt rest
      have wraps : (256 ^ (bytes + 1) : Int) = 2 * (128 * 256 ^ bytes : Nat) := by
        push_cast
        ring
      rw [form, Bytes.toNat_cons, wraps, emod_of_signed low high, length] at number
      rw [length] at rest_lt
      have top : 0x80 ≤ first ↔ 128 ≤ first.toNat := UInt8.le_iff_toNat_le
      simp only [List.head?_cons, Option.any_some, decide_eq_decide, top]
      constructor
      · intro big
        have : 128 * 256 ^ bytes ≤ first.toNat * 256 ^ bytes := Nat.mul_le_mul_right _ big
        by_contra nonnegative
        rw [if_neg nonnegative] at number
        omega
      · intro negative
        by_contra small
        have : first.toNat * 256 ^ bytes ≤ 127 * 256 ^ bytes :=
          Nat.mul_le_mul_right _ (by omega)
        rw [if_pos negative] at number
        omega

theorem toSigned_padLeft_signedBytes {value : Int} {bytes width : Nat} (narrow : bytes + 1 ≤ size)
    (wide : size ≤ width) (low : -(128 * 256 ^ bytes : Nat) ≤ value)
    (high : value < (128 * 256 ^ bytes : Nat)) :
    toSigned (padLeft (signedBytes value (bytes + 1)) width
      (if (signedBytes value (bytes + 1)).head?.any (0x80 ≤ ·) then 0xff else 0)) = value := by
  have number := toNat_signedBytes value narrow
  have length : (signedBytes value (bytes + 1)).length = bytes + 1 := length_signedBytes narrow
  have wraps : (256 ^ (bytes + 1) : Int) = 2 * (128 * 256 ^ bytes : Nat) := by
    push_cast
    ring
  rw [wraps, emod_of_signed low high] at number
  have bound : 128 * 256 ^ bytes ≤ modulus / 2 := by
    have : 256 ^ bytes ≤ 256 ^ 15 :=
      Nat.pow_le_pow_right (by decide) (Nat.le_of_succ_le_succ narrow)
    rw [modulus_eq]
    omega
  rw [head?_signedBytes narrow low high, toSigned, toUnsigned_padLeft (by omega) wide,
    Int.bmod_eq_iff (by decide)]
  refine ⟨by omega, by omega, ?_⟩
  by_cases negative : value < 0
  · -- The fill completes the narrow form to the word of `modulus + value`.
    have fill := Bytes.toNat_replicate_max (size - (bytes + 1))
    have whole : 256 ^ (size - (bytes + 1)) * 256 ^ (bytes + 1) = modulus := by
      rw [modulus_eq, ← pow_add, Nat.sub_add_cancel narrow, size]
    have wrapsNat : 256 ^ (bytes + 1) = 2 * (128 * 256 ^ bytes) := by ring
    rw [if_pos negative] at number
    rw [if_pos (decide_eq_true negative), length]
    refine ⟨-1, ?_⟩
    have sum : Bytes.toNat (List.replicate (size - (bytes + 1)) 0xff) * 256 ^ (bytes + 1) +
        256 ^ (bytes + 1) = modulus := by
      rw [← whole, ← fill]
      ring
    omega
  · rw [if_neg negative] at number
    rw [if_neg (by simpa using negative), Bytes.toNat_replicate_zero, Nat.zero_mul, Nat.zero_add,
      number, sub_self]
    exact Int.dvd_zero _

end NodeProtocol.Word
