import NodeProtocol.Proofs.Word

namespace NodeProtocol

namespace Bytes

theorem pow_256 (width : Nat) : 256 ^ width = 2 ^ (8 * width) :=
  (Nat.pow_mul 2 8 width).symm

theorem toNat_takeLast (bytes : Bytes) (width : Nat) :
    toNat (bytes.takeLast width) = toNat bytes % 256 ^ width := by
  rcases Nat.le_total width bytes.length with long | short
  · have low := toNat_lt (bytes.takeLast width)
    have number := toNat_append (bytes.take (bytes.length - width)) (bytes.takeLast width)
    rw [length_takeLast, Nat.min_eq_right long] at low number
    rw [takeLast, List.take_append_drop] at number
    rw [number, Nat.mul_add_mod', ← takeLast, Nat.mod_eq_of_lt low]
  · rw [takeLast_of_length_le short, Nat.mod_eq_of_lt]
    exact (toNat_lt bytes).trans_le (Nat.pow_le_pow_right (by decide) short)

theorem toNat_eq_zero_iff {bytes : Bytes} : toNat bytes = 0 ↔ bytes.any (· ≠ 0) = false := by
  induction bytes with
  | nil => simp
  | cons byte bytes ih =>
      have digit : byte.toNat = 0 ↔ byte = 0 := UInt8.toNat_inj (b := 0)
      rw [toNat_cons, Nat.add_eq_zero_iff, Nat.mul_eq_zero, ih, List.any_cons,
        Bool.or_eq_false_iff, digit]
      simp

end Bytes

namespace Word

theorem toUnsigned_eq (word : Bytes) : toUnsigned word = word.toNat % 2 ^ 128 :=
  Bytes.toNat_takeLast word size

theorem toNat_eq_high_low {word : Bytes} (long : size ≤ word.length) :
    word.toNat = Bytes.toNat (word.take (word.length - size)) * 256 ^ size + toUnsigned word := by
  have number := Bytes.toNat_append (word.take (word.length - size)) (word.takeLast size)
  rw [Bytes.length_takeLast, Nat.min_eq_right long] at number
  rwa [Bytes.takeLast, List.take_append_drop] at number

theorem toPosition?_eq_some_iff {word : Bytes} {n : Nat} :
    toPosition? word = some n ↔ word.toNat = n ∧ n < 2 ^ 64 := by
  have bound : positionBound = 2 ^ 64 := by rw [positionBound, Nat.one_shiftLeft]
  rw [toPosition?, ← bound]
  cases high : (word.take (word.length - size)).any (· ≠ 0) with
  | true =>
      -- A byte above the low ones makes the number larger than any position.
      have positive : 0 < Bytes.toNat (word.take (word.length - size)) := by
        refine Nat.pos_of_ne_zero fun zero => ?_
        cases high.symm.trans (Bytes.toNat_eq_zero_iff.mp zero)
      have long : size ≤ word.length := by
        by_contra short
        rw [Nat.sub_eq_zero_of_le (by omega)] at positive
        exact Nat.lt_irrefl 0 positive
      have large : 256 ^ size ≤ word.toNat := by
        rw [toNat_eq_high_low long]
        exact Nat.le_add_right_of_le (Nat.le_mul_of_pos_left _ positive)
      have beyond : positionBound < 256 ^ size := positionBound_lt
      rw [if_pos rfl]
      constructor
      · intro found
        cases found
      · rintro ⟨rfl, position⟩
        omega
  | false =>
      have low : word.toNat = toUnsigned word := by
        rcases Nat.le_total size word.length with long | short
        · rw [toNat_eq_high_low long, Bytes.toNat_eq_zero_iff.mpr high, Nat.zero_mul, Nat.zero_add]
        · rw [toUnsigned, Bytes.takeLast_of_length_le short]
      rw [if_neg Bool.false_ne_true, ← low, Option.ite_none_right_eq_some, Option.some_inj]
      constructor
      · rintro ⟨position, rfl⟩
        exact ⟨rfl, position⟩
      · rintro ⟨rfl, position⟩
        exact ⟨position, rfl⟩

def signExtend (bytes : Bytes) (width : Nat) : Bytes :=
  padLeft bytes width (if bytes.head?.any (0x80 ≤ ·) then 0xff else 0)

theorem toSigned_signExtend {value : Int} {bytes width : Nat} (some_byte : 1 ≤ bytes)
    (narrow : bytes ≤ size) (low : -2 ^ (8 * bytes - 1) ≤ value)
    (high : value < 2 ^ (8 * bytes - 1)) (wide : size ≤ width) :
    toSigned (signExtend (signedBytes value bytes) width) = value := by
  obtain ⟨rest, rfl⟩ : ∃ rest, bytes = rest + 1 := ⟨bytes - 1, by omega⟩
  have half : (2 ^ (8 * (rest + 1) - 1) : Int) = (128 * 256 ^ rest : Nat) := by
    rw [Bytes.pow_256, show 128 = 2 ^ 7 from rfl, ← pow_add]
    push_cast
    congr 1
    omega
  rw [half] at low high
  exact toSigned_padLeft_signedBytes narrow wide low high

theorem toNat_ofUnsigned {value : Nat} (h : value < 2 ^ 128) (width : Nat) :
    (ofUnsigned value width).toNat = value := by
  rw [ofUnsigned, padLeft, Bytes.toNat_append, Bytes.toNat_replicate_zero, Nat.zero_mul,
    Nat.zero_add, Bytes.toNat_ofNat_of_lt]
  rwa [Bytes.pow_256, size]

theorem le_length_ofUnsigned (value width : Nat) : width ≤ (ofUnsigned value width).length := by
  rw [ofUnsigned, padLeft, List.length_append, List.length_replicate, Bytes.length_ofNat]
  omega

structure ChangedWithin (start width : Nat) (before after : Bytes) : Prop where
  length : after.length = before.length
  front : after.take start = before.take start
  back : after.drop (start + width) = before.drop (start + width)

theorem write_eq {buffer : Bytes} {start value width : Nat} (inside : start + width ≤ buffer.length)
    (h : value < 2 ^ 128) :
    ChangedWithin start width buffer (write buffer start value width) ∧
    ∃ word, read? (write buffer start value width) start width = some word ∧
      word.toNat = value % 2 ^ (8 * width) := by
  have front : (buffer.take start).length = start := List.length_take_of_le (by omega)
  have window : ((ofUnsigned value width).takeLast width).length = width := by
    rw [Bytes.length_takeLast, Nat.min_eq_right (le_length_ofUnsigned value width)]
  have both : (buffer.take start ++ (ofUnsigned value width).takeLast width).length =
      start + width := by
    rw [List.length_append, front, window]
  refine ⟨⟨?_, ?_, ?_⟩, _, Bytes.slice?_of_holds ⟨_, _, rfl, front⟩ window, ?_⟩
  · rw [write, List.length_append, both, List.length_drop, Nat.add_sub_cancel' inside]
  · rw [write, List.append_assoc, List.take_left' front]
  · rw [write, List.drop_left' both]
  · rw [Bytes.toNat_takeLast, toNat_ofUnsigned h, Bytes.pow_256]

theorem words_bigEndian :
    (∀ word : Bytes, toUnsigned word = word.toNat % 2 ^ 128) ∧
    (∀ (word : Bytes) (n : Nat), toPosition? word = some n ↔ word.toNat = n ∧ n < 2 ^ 64) ∧
    (∀ value < 2 ^ 128, ∀ width ≥ 16, toUnsigned (ofUnsigned value width) = value) ∧
    (∀ (bytes : Nat) (value : Int), 1 ≤ bytes → bytes ≤ 16 → -2 ^ (8 * bytes - 1) ≤ value →
      value < 2 ^ (8 * bytes - 1) → ∀ width ≥ 16,
      toSigned (signExtend (signedBytes value bytes) width) = value) ∧
    (∀ (buffer : Bytes) (start width : Nat), start + width ≤ buffer.length → ∀ value < 2 ^ 128,
      ChangedWithin start width buffer (write buffer start value width) ∧
      ∃ word, read? (write buffer start value width) start width = some word ∧
        word.toNat = value % 2 ^ (8 * width)) := by
  refine ⟨toUnsigned_eq, fun _ _ => toPosition?_eq_some_iff, ?_, ?_, ?_⟩
  · intro value h width wide
    rw [toUnsigned_eq, toNat_ofUnsigned h, Nat.mod_eq_of_lt h]
  · intro bytes value some_byte narrow low high width wide
    exact toSigned_signExtend some_byte narrow low high wide
  · intro buffer start width inside value h
    exact write_eq inside h

theorem words_bigEndian_cut :
    toSigned (signExtend (signedBytes (-70000) 3) 32) = -70000 ∧
    ChangedWithin 1 1 [1, 2, 3] (write [1, 2, 3] 1 0x1234 1) ∧
    ∃ word, read? (write [1, 2, 3] 1 0x1234 1) 1 1 = some word ∧ word.toNat = 0x34 := by
  obtain ⟨-, -, -, signed, written⟩ := words_bigEndian
  exact ⟨signed 3 (-70000) (by decide) (by decide) (by decide) (by decide) 32 (by decide),
    written [1, 2, 3] 1 1 (by decide) 0x1234 (by decide)⟩

end Word

end NodeProtocol
