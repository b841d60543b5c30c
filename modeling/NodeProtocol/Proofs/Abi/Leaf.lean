import Mathlib.Tactic.Ring
import NodeProtocol.Abi.Leaf
import NodeProtocol.Proofs.Fallible
import NodeProtocol.Proofs.Word

namespace NodeProtocol.Abi.Kind

def IsLeaf : Kind → Bytes → Prop
  | address, leaf => leaf.length = 20
  | bool, leaf => ∃ value : Bool, leaf = [if value then 1 else 0]
  | fixedBytes length, leaf => leaf.length = length
  | bytes, _ => True
  | string, leaf => ∃ text, leaf = Text.utf8 text
  | int bits, leaf => ∃ value, signedLeaf value bits = .ok leaf
  | uint bits, leaf => ∃ value, unsignedLeaf value bits = .ok leaf
  | real, leaf | ureal, leaf => leaf.length = Word.size

theorem exactLength_eq_ok {data leaf : Bytes} {length : Nat} :
    exactLength data length = .ok leaf ↔ data = leaf ∧ data.length = length := by
  unfold exactLength
  split
  · simp_all
  · simp_all

theorem length_realLeaf {fixed : Option Int} {shown : String} {leaf : Bytes}
    (h : realLeaf fixed shown = .ok leaf) : leaf.length = Word.size := by
  unfold realLeaf at h
  split at h
  · split at h
    · rw [← Except.ok.inj h]
      exact Word.length_signedBytes (Nat.le_refl _)
    · cases h
  · cases h

theorem length_urealLeaf {fixed : Option Int} {shown : String} {leaf : Bytes}
    (h : urealLeaf fixed shown = .ok leaf) : leaf.length = Word.size := by
  unfold urealLeaf at h
  split at h
  · split at h
    · rw [← Except.ok.inj h]
      exact Word.length_signedBytes (Nat.le_refl _)
    · cases h
  · cases h

theorem isLeaf_of_leafOfToken {kind : Kind} {token : Token} {leaf : Bytes}
    (h : kind.leafOfToken token = .ok leaf) : kind.IsLeaf leaf := by
  unfold leafOfToken at h
  split at h
  case h_1 data =>
      cases h
      exact data.property
  case h_3 value =>
      cases h
      exact ⟨value, rfl⟩
  case h_10 text =>
      cases h
      exact ⟨text, rfl⟩
  -- Byte strings must have the length of the kind, wherever they come from.
  case h_2 | h_6 =>
      obtain ⟨data, -, h⟩ := bind_eq_ok.mp h
      obtain ⟨rfl, length⟩ := exactLength_eq_ok.mp h
      exact length
  case h_4 | h_5 =>
      obtain ⟨rfl, length⟩ := exactLength_eq_ok.mp h
      exact length
  case h_7 | h_8 | h_9 => trivial
  -- Integers are checked against the width of the kind.
  case h_11 value | h_14 value => exact ⟨value, h⟩
  case h_12 value | h_15 value =>
      split at h
      · exact ⟨_, h⟩
      · cases h
  case h_13 | h_16 =>
      obtain ⟨value, -, h⟩ := bind_eq_ok.mp h
      exact ⟨value, h⟩
  case h_17 | h_18 => exact length_realLeaf h
  case h_19 =>
      split at h
      · cases h
      · exact length_urealLeaf h
  case h_20 => exact length_urealLeaf h
  case h_21 => cases h

theorem size_le_wordSize (kind : Kind) : Word.size ≤ kind.wordSize := by
  unfold wordSize
  split
  · decide
  · split
    · decide
    · exact Nat.le_refl _
  · exact Nat.le_refl _

theorem wordSize_pos (kind : Kind) : 0 < kind.wordSize :=
  Nat.lt_of_lt_of_le (by decide) kind.size_le_wordSize

theorem wordSize_le (kind : Kind) : kind.wordSize ≤ Word.wideSize := by
  unfold wordSize
  split
  · exact Nat.le_refl _
  · split <;> decide
  · decide

theorem fixedBytes_le_wordSize {length : Nat} (valid : (fixedBytes length).Valid) :
    length ≤ (fixedBytes length).wordSize := by
  have bound : length ≤ 32 := valid.2
  rw [wordSize]
  split
  · exact bound
  · omega

theorem width_eq {bits : Nat} (valid : bits % 8 = 0 ∧ 8 ≤ bits ∧ bits ≤ 128) :
    ∃ rest, bits / 8 = rest + 1 ∧ rest + 1 ≤ Word.size ∧
      1 <<< valueBits bits = 2 * (128 * 256 ^ rest) := by
  obtain ⟨multiple, low, high⟩ := valid
  refine ⟨bits / 8 - 1, by omega, by rw [Word.size]; omega, ?_⟩
  have bits_eq : bits = 8 * (bits / 8 - 1) + 8 := by omega
  rw [valueBits, Nat.min_eq_left high, Nat.one_shiftLeft, show (256 : Nat) = 2 ^ 8 from rfl,
    ← pow_mul]
  conv_lhs => rw [bits_eq, pow_add]
  ring

theorem signedLeaf_eq_ok {value : Int} {bits : Nat} {leaf : Bytes} :
    signedLeaf value bits = .ok leaf ↔
      (-((1 <<< valueBits bits) / 2 : Nat) ≤ value ∧ value < ((1 <<< valueBits bits) / 2 : Nat)) ∧
        leaf = Word.signedBytes value (bits / 8) := by
  unfold signedLeaf
  simp only
  split
  · rename_i range
    constructor
    · intro h
      cases h
      exact ⟨range, rfl⟩
    · rintro ⟨-, rfl⟩
      rfl
  · rename_i range
    exact ⟨nofun, fun h => absurd h.1 range⟩

theorem unsignedLeaf_eq_ok {value bits : Nat} {leaf : Bytes} :
    unsignedLeaf value bits = .ok leaf ↔
      value < 1 <<< valueBits bits ∧ leaf = Word.unsignedBytes value (bits / 8) := by
  unfold unsignedLeaf
  split
  · rename_i range
    constructor
    · intro h
      cases h
      exact ⟨range, rfl⟩
    · rintro ⟨-, rfl⟩
      rfl
  · rename_i range
    exact ⟨nofun, fun h => absurd h.1 range⟩

theorem IsLeaf.length_le {kind : Kind} {leaf : Bytes} (h : kind.IsLeaf leaf) (valid : kind.Valid)
    (static : kind.isDynamic = false) : leaf.length ≤ kind.wordSize := by
  cases kind with
  | address =>
      have length : leaf.length = 20 := h
      rw [length]
      decide
  | bool =>
      obtain ⟨value, rfl⟩ := h
      exact Nat.le_trans (Nat.le_add_left 1 15) (size_le_wordSize _)
  | fixedBytes length =>
      have exact : leaf.length = length := h
      rw [exact]
      exact fixedBytes_le_wordSize valid
  | bytes | string => cases static
  | int bits =>
      obtain ⟨value, h⟩ := h
      obtain ⟨rest, width, narrow, -⟩ := width_eq valid
      obtain ⟨-, rfl⟩ := signedLeaf_eq_ok.mp h
      rw [width, Word.length_signedBytes narrow]
      exact narrow
  | uint bits =>
      obtain ⟨value, h⟩ := h
      obtain ⟨rest, width, narrow, -⟩ := width_eq valid
      obtain ⟨-, rfl⟩ := unsignedLeaf_eq_ok.mp h
      rw [width, Word.length_unsignedBytes narrow]
      exact narrow
  | real | ureal => exact Nat.le_of_eq h

theorem encode_eq_padLeft {kind : Kind} (leaf : Bytes) (static : kind.isDynamic = false) :
    ∃ fill, kind.encode leaf = Word.padLeft leaf kind.wordSize fill := by
  cases kind with
  | bytes | string => cases static
  | _ => exact ⟨_, rfl⟩

theorem length_encode {kind : Kind} {leaf : Bytes} (h : kind.IsLeaf leaf) (valid : kind.Valid)
    (static : kind.isDynamic = false) : (kind.encode leaf).length = kind.wordSize := by
  obtain ⟨fill, padded⟩ := encode_eq_padLeft leaf static
  rw [padded]
  exact Word.length_padLeft (h.length_le valid static)

theorem decode_static {kind : Kind} (data : Bytes) (offset : Nat)
    (static : kind.isDynamic = false) :
    kind.decode data offset =
      .ok (((Word.read? data offset kind.wordSize).map kind.ofWord).getD kind.zero) := by
  cases kind with
  | bytes | string => cases static
  | _ => rfl

theorem tokenOfLeaf_static {kind : Kind} {leaf : Bytes} (h : kind.IsLeaf leaf)
    (valid : kind.Valid) (static : kind.isDynamic = false) :
    kind.tokenOfLeaf leaf = .ok (kind.ofWord (kind.encode leaf)) := by
  have unfolded : kind.tokenOfLeaf leaf = kind.decode (kind.encode leaf) 0 := by
    cases kind with
    | bytes | string => cases static
    | _ => rfl
  have whole : Bytes.Holds (kind.encode leaf) 0 (kind.encode leaf) :=
    ⟨[], [], by simp, rfl⟩
  rw [unfolded, decode_static _ _ static, Word.read?,
    Bytes.slice?_of_holds whole (length_encode h valid static)]
  rfl

theorem readData?_of_holds {data leaf : Bytes} {offset wordSize : Nat}
    (h : Bytes.Holds data offset (Word.ofUnsigned leaf.length wordSize ++ Word.padRight leaf wordSize))
    (wide : Word.size ≤ wordSize) (addressable : data.length < Word.positionBound) :
    readData? data offset wordSize = some leaf := by
  obtain ⟨lengthWord, padded⟩ := Bytes.holds_append h
  rw [Word.length_ofUnsigned wide, Word.padRight] at padded
  have stored := (Bytes.holds_append padded).1
  have inside := stored.end_le
  rw [readData?, Word.read?, Bytes.slice?_of_holds lengthWord (Word.length_ofUnsigned wide)]
  simp only [Option.bind_eq_bind, Option.bind_some]
  rw [Word.toPosition?_ofUnsigned (by omega) wide]
  exact Bytes.slice?_of_holds stored rfl

theorem decode_of_holds {kind : Kind} {data leaf : Bytes} {offset : Nat} (valid : kind.Valid)
    (isLeaf : kind.IsLeaf leaf) (h : Bytes.Holds data offset (kind.encode leaf))
    (addressable : data.length < Word.positionBound) :
    kind.decode data offset = kind.tokenOfLeaf leaf := by
  cases dynamic : kind.isDynamic with
  | false =>
      rw [tokenOfLeaf_static isLeaf valid dynamic, decode_static _ _ dynamic, Word.read?,
        Bytes.slice?_of_holds h (length_encode isLeaf valid dynamic)]
      rfl
  | true =>
      cases kind with
      | bytes =>
          rw [decode, readData?_of_holds h (size_le_wordSize _) addressable]
          rfl
      | string =>
          rw [decode, readData?_of_holds h (size_le_wordSize _) addressable]
          rfl
      | _ => cases dynamic

def variant : Kind → Token.Variant
  | address => .address
  | bool => .bool
  | fixedBytes _ => .fixedBytes
  | bytes => .bytes
  | int _ => .int
  | uint _ => .uint
  | real | ureal => .real
  | string => .string

def isFixedPoint : Kind → Bool
  | real | ureal => true
  | _ => false

theorem last_append {front back : Bytes} {length : Nat} (h : back.length = length) :
    (BytesOf.last length (front ++ back)).val = back := by
  subst h
  change (List.replicate back.length 0 ++ (front ++ back)).drop (front ++ back).length = back
  rw [← List.append_assoc]
  exact List.drop_left' (by simp [Nat.add_comm])

theorem any_padLeft (value : Bool) (width : Nat) :
    (Word.padLeft [if value then 1 else 0] width 0).any (· ≠ 0) = value := by
  cases value <;> simp [Word.padLeft]

theorem exists_token_of_isLeaf {kind : Kind} {leaf : Bytes} (h : kind.IsLeaf leaf)
    (lossless : kind.isFixedPoint = false) :
    ∃ token : Token, token.variant = kind.variant ∧ kind.leafOfToken token = .ok leaf := by
  cases kind with
  | real | ureal => cases lossless
  | address => exact ⟨.address ⟨leaf, h⟩, rfl, rfl⟩
  | bytes => exact ⟨.bytes leaf, rfl, rfl⟩
  | fixedBytes length => exact ⟨.fixedBytes leaf, rfl, exactLength_eq_ok.mpr ⟨rfl, h⟩⟩
  | bool =>
      obtain ⟨value, rfl⟩ := h
      exact ⟨.bool value, rfl, rfl⟩
  | string =>
      obtain ⟨text, rfl⟩ := h
      exact ⟨.string text, rfl, rfl⟩
  | int bits =>
      obtain ⟨value, built⟩ := h
      exact ⟨.int value, rfl, built⟩
  | uint bits =>
      obtain ⟨value, built⟩ := h
      exact ⟨.uint value, rfl, built⟩

theorem tokenOfLeaf_of_leafOfToken {kind : Kind} {token : Token} {leaf : Bytes}
    (valid : kind.Valid) (lossless : kind.isFixedPoint = false)
    (variant : token.variant = kind.variant) (built : kind.leafOfToken token = .ok leaf) :
    kind.tokenOfLeaf leaf = .ok token := by
  have static := tokenOfLeaf_static (isLeaf_of_leafOfToken built) valid
  cases kind with
  | real | ureal => cases lossless
  | bytes =>
      cases token with
      | bytes data =>
          cases built
          rfl
      | _ => cases variant
  | string =>
      cases token with
      | string text =>
          cases built
          rw [tokenOfLeaf, textToken, Text.ofUtf8?_utf8]
      | _ => cases variant
  | address =>
      cases token with
      | address data =>
          cases built
          rw [static rfl]
          exact congrArg (Except.ok ∘ Token.address) (Subtype.ext (last_append data.property))
      | _ => cases variant
  | bool =>
      cases token with
      | bool value =>
          cases built
          rw [static rfl]
          exact congrArg (Except.ok ∘ Token.bool) (any_padLeft value _)
      | _ => cases variant
  | fixedBytes length =>
      cases token with
      | fixedBytes data =>
          obtain ⟨rfl, length_eq⟩ := exactLength_eq_ok.mp built
          rw [static rfl]
          exact congrArg (Except.ok ∘ Token.fixedBytes) (Bytes.takeLast_append length_eq)
      | _ => cases variant
  | int bits =>
      cases token with
      | int value =>
          obtain ⟨rest, width, narrow, bound⟩ := width_eq valid
          obtain ⟨⟨low, high⟩, leaf_eq⟩ := signedLeaf_eq_ok.mp built
          rw [bound, Nat.mul_div_cancel_left _ Nat.two_pos] at low high
          rw [static rfl, leaf_eq, width]
          exact congrArg (Except.ok ∘ Token.int)
            (Word.toSigned_padLeft_signedBytes narrow (Nat.le_refl _) low high)
      | _ => cases variant
  | uint bits =>
      cases token with
      | uint value =>
          obtain ⟨rest, width, narrow, bound⟩ := width_eq valid
          obtain ⟨range, leaf_eq⟩ := unsignedLeaf_eq_ok.mp built
          rw [static rfl, leaf_eq, width]
          refine congrArg (Except.ok ∘ Token.uint)
            (Word.toUnsigned_padLeft_unsignedBytes narrow (Nat.le_refl _) ?_)
          rw [bound] at range
          rw [pow_succ]
          omega
      | _ => cases variant

theorem tokenOfLeaf_isLeaf {kind : Kind} {leaf : Bytes} (h : kind.IsLeaf leaf)
    (valid : kind.Valid) (lossless : kind.isFixedPoint = false) :
    ∃ token, kind.tokenOfLeaf leaf = .ok token ∧ token.variant = kind.variant ∧
      kind.leafOfToken token = .ok leaf := by
  obtain ⟨token, variant, built⟩ := exists_token_of_isLeaf h lossless
  exact ⟨token, tokenOfLeaf_of_leafOfToken valid lossless variant built, variant, built⟩

end NodeProtocol.Abi.Kind
