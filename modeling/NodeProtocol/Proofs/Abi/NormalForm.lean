import NodeProtocol.Proofs.Abi.Literal

namespace NodeProtocol

open Text (IsDigit)

namespace Text

theorem utf8_ofList {cs : List Char} (ascii : ∀ c ∈ cs, c.toNat < 128) :
    utf8 (String.ofList cs) = cs.map Char.toUInt8 := by
  have bytes : utf8 (String.ofList cs) = cs.flatMap String.utf8EncodeChar := by
    simp [utf8, List.utf8Encode]
  rw [bytes]
  clear bytes
  induction cs with
  | nil => rfl
  | cons c cs ih =>
      rw [List.forall_mem_cons] at ascii
      have single : c.utf8Size = 1 := by
        rw [Char.utf8Size_eq_one_iff, UInt32.le_iff_toNat_le]
        exact Nat.le_of_lt_succ ascii.1
      rw [List.flatMap_cons, String.utf8EncodeChar_eq_singleton single, ih ascii.2]
      rfl

theorem toList_of_utf8 {text : String} (ascii : ∀ byte ∈ utf8 text, byte < 128) :
    text.toList = (utf8 text).map Char.ofUInt8 := by
  have small : ∀ c ∈ (utf8 text).map Char.ofUInt8, c.toNat < 128 := by
    intro c member
    obtain ⟨byte, inside, rfl⟩ := List.mem_map.mp member
    exact UInt8.lt_iff_toNat_lt.mp (ascii byte inside)
  have same : utf8 text = utf8 (String.ofList ((utf8 text).map Char.ofUInt8)) := by
    rw [utf8_ofList small, List.map_map]
    exact (List.map_id'' UInt8.toUInt8_toUInt32 _).symm
  conv_lhs => rw [utf8_inj.mp same, String.toList_ofList]

end Text

namespace Hex

inductive Digits : List Char → Bytes → Prop
  | nil : Digits [] []
  | cons {high low : Char} {text : List Char} {byte : UInt8} {bytes : Bytes}
      (upper : IsDigit high (byte.toNat / 16)) (lower : IsDigit low (byte.toNat % 16))
      (rest : Digits text bytes) : Digits (high :: low :: text) (byte :: bytes)

def Spells (text : String) (bytes : Bytes) : Prop :=
  ∃ digits, Digits digits bytes ∧ (text.toList = digits ∨ text.toList = '0' :: 'x' :: digits)

theorem isDigit_of_value? {digit value : UInt8} (read : value? digit = some value) :
    digit < 128 ∧ value.toNat < 16 ∧ IsDigit (Char.ofUInt8 digit) value.toNat := by
  have code : (Char.ofUInt8 digit).toNat = digit.toNat := rfl
  have codes : digit.toNat = 48 + value.toNat ∧ value.toNat < 10 ∨
      digit.toNat = 87 + value.toNat ∧ 10 ≤ value.toNat ∧ value.toNat < 16 ∨
        digit.toNat = 55 + value.toNat ∧ 10 ≤ value.toNat ∧ value.toNat < 16 := by
    have behind (first : UInt8) (h : first ≤ digit) :
        (digit - first).toNat = digit.toNat - first.toNat := UInt8.toNat_sub_of_le _ _ h
    unfold value? at read
    split at read
    case isTrue range =>
      cases read
      have known := behind 48 range.1
      simp only [UInt8.le_iff_toNat_le, UInt8.reduceToNat] at range known
      omega
    case isFalse =>
      split at read
      case isTrue range =>
        cases read
        have known := behind 87 (UInt8.le_trans (by decide) range.1)
        simp only [UInt8.le_iff_toNat_le, UInt8.reduceToNat] at range known
        omega
      case isFalse =>
        split at read
        case isTrue range =>
          cases read
          have known := behind 55 (UInt8.le_trans (by decide) range.1)
          simp only [UInt8.le_iff_toNat_le, UInt8.reduceToNat] at range known
          omega
        case isFalse => cases read
  have small : value.toNat < 16 := by omega
  refine ⟨UInt8.lt_iff_toNat_lt.mpr ?_, small, (Text.isDigit_iff small).mpr ?_⟩
  · change digit.toNat < 128
    omega
  · rw [code]
    omega

theorem readDigit_eq_ok {digit value : UInt8} {position : Nat} :
    readDigit digit position = .ok value ↔ value? digit = some value := by
  rw [readDigit]
  cases value? digit <;> simp

theorem toNat_pair {upper lower : UInt8} (high : upper.toNat < 16) (low : lower.toNat < 16) :
    (16 * upper + lower).toNat / 16 = upper.toNat ∧
      (16 * upper + lower).toNat % 16 = lower.toNat := by
  have sum : (16 * upper + lower).toNat = 16 * upper.toNat + lower.toNat := by
    rw [UInt8.toNat_add, UInt8.toNat_mul]
    simp only [UInt8.reduceToNat]
    omega
  omega

theorem digits_of_decodeFrom {position : Nat} {digits bytes : Bytes}
    (even : digits.length % 2 = 0) (read : decodeFrom position digits = .ok bytes) :
    Digits (digits.map Char.ofUInt8) bytes ∧ ∀ digit ∈ digits, digit < 128 := by
  fun_induction decodeFrom position digits generalizing bytes with
  | case1 position high low rest ih =>
      obtain ⟨upper, highRead, read⟩ := bind_eq_ok.mp read
      obtain ⟨lower, lowRead, read⟩ := bind_eq_ok.mp read
      obtain ⟨more, restRead, read⟩ := bind_eq_ok.mp read
      cases read
      obtain ⟨highAscii, highSmall, highDigit⟩ := isDigit_of_value? (readDigit_eq_ok.mp highRead)
      obtain ⟨lowAscii, lowSmall, lowDigit⟩ := isDigit_of_value? (readDigit_eq_ok.mp lowRead)
      obtain ⟨first, second⟩ := toNat_pair highSmall lowSmall
      simp only [List.length_cons] at even
      obtain ⟨digits, ascii⟩ := ih (by omega) restRead
      refine ⟨.cons (first ▸ highDigit) (second ▸ lowDigit) digits, ?_⟩
      exact List.forall_mem_cons.mpr ⟨highAscii, List.forall_mem_cons.mpr ⟨lowAscii, ascii⟩⟩
  | case2 digits position short =>
      cases read
      match digits, short with
      | [], _ => exact ⟨.nil, List.forall_mem_nil _⟩
      | [_], _ => cases even
      | high :: low :: rest, short => exact absurd rfl (short high low rest)

theorem spells_of_decode {text : String} {bytes : Bytes}
    (read : decode (dropMark text) = .ok bytes) : Spells text bytes := by
  rw [decode, decodeBytes] at read
  split at read
  case isTrue => cases read
  case isFalse odd =>
    obtain ⟨digits, ascii⟩ := digits_of_decodeFrom (by omega) read
    rw [← Text.toList_of_utf8 ascii] at digits
    refine ⟨_, digits, ?_⟩
    rw [dropMark]
    split
    case h_1 rest marked => exact .inr (by rw [marked, String.toList_ofList])
    case h_2 => exact .inl rfl

end Hex

namespace Abi

namespace Token

inductive HasBytes : Token → Bytes → Prop
  | fixedBytes (data : Bytes) : HasBytes (.fixedBytes data) data
  | bytes (data : Bytes) : HasBytes (.bytes data) data
  | text {text : String} {data : Bytes} (spells : Hex.Spells text data) :
      HasBytes (.string text) data

inductive Denotes : Token → Int → Prop
  | int (z : Int) : Denotes (.int z) z
  | uint (n : Nat) : Denotes (.uint n) n
  | positive {text : String} {n : Nat} (literal : Numeral.Literal false n text) :
      Denotes (.string text) n
  | negative {text : String} {n : Nat} (literal : Numeral.Literal true n text) :
      Denotes (.string text) (-n)

end Token

namespace Kind

/-- The second token is the scalar of the kind's own sort that stands for the same. -/
def Normal (kind : Kind) (token normal : Token) : Prop :=
  match kind with
  | address => ∃ data : BytesOf 20, normal = .address data ∧
      (token = .address data ∨ ∃ text, token = .string text ∧ Hex.Spells text data.val)
  | fixedBytes length => ∃ data : Bytes, normal = .fixedBytes data ∧ data.length = length ∧
      token.HasBytes data
  | bytes => ∃ data, normal = .bytes data ∧ token.HasBytes data
  | int _ => ∃ z, normal = .int z ∧ token.Denotes z
  | uint _ => ∃ n : Nat, normal = .uint n ∧ token.Denotes n
  | bool => ∃ value, normal = .bool value ∧ token = normal
  | string => ∃ text, normal = .string text ∧ token = normal
  | real | ureal => False

theorem denotes_of_signed {text : String} {z : Int} (read : Numeral.signed text = .ok z) :
    Token.Denotes (.string text) z := by
  obtain ⟨negative, n, literal, rfl⟩ := Numeral.literal_of_signed read
  cases negative with
  | true => exact .negative literal
  | false => exact .positive literal

theorem spells_of_readHex {text : String} {data : Bytes} (read : readHex text = .ok data) :
    Hex.Spells text data :=
  Hex.spells_of_decode (mapError_eq_ok.mp read)

theorem normal_of_leafOfToken {kind : Kind} {token : Token} {leaf : Bytes}
    (lossless : kind.isFixedPoint = false) (built : kind.leafOfToken token = .ok leaf) :
    ∃ normal : Token, kind.Normal token normal ∧ normal.variant = kind.variant ∧
      kind.leafOfToken normal = .ok leaf := by
  unfold leafOfToken at built
  split at built
  case h_1 data => exact ⟨_, ⟨data, rfl, .inl rfl⟩, rfl, built⟩
  case h_2 text =>
      obtain ⟨data, read, exact⟩ := bind_eq_ok.mp built
      obtain ⟨rfl, length⟩ := exactLength_eq_ok.mp exact
      exact ⟨_, ⟨⟨data, length⟩, rfl, .inr ⟨text, rfl, spells_of_readHex read⟩⟩, rfl, rfl⟩
  case h_3 value => exact ⟨_, ⟨value, rfl, rfl⟩, rfl, built⟩
  case h_4 length data =>
      exact ⟨_, ⟨data, rfl, (exactLength_eq_ok.mp built).2, .fixedBytes data⟩, rfl, built⟩
  case h_5 length data =>
      exact ⟨_, ⟨data, rfl, (exactLength_eq_ok.mp built).2, .bytes data⟩, rfl, built⟩
  case h_6 length text =>
      obtain ⟨data, read, exact⟩ := bind_eq_ok.mp built
      obtain ⟨rfl, long⟩ := exactLength_eq_ok.mp exact
      exact ⟨_, ⟨data, rfl, long, .text (spells_of_readHex read)⟩, rfl, exact⟩
  case h_7 data => exact ⟨_, ⟨data, rfl, .bytes data⟩, rfl, built⟩
  case h_8 data => exact ⟨_, ⟨data, rfl, .fixedBytes data⟩, rfl, built⟩
  case h_9 text => exact ⟨_, ⟨leaf, rfl, .text (spells_of_readHex built)⟩, rfl, rfl⟩
  case h_10 text => exact ⟨_, ⟨text, rfl, rfl⟩, rfl, built⟩
  case h_11 bits value => exact ⟨_, ⟨value, rfl, .int value⟩, rfl, built⟩
  case h_12 bits value =>
      split at built
      · exact ⟨.int value, ⟨value, rfl, .uint value⟩, rfl, built⟩
      · cases built
  case h_13 bits text =>
      obtain ⟨z, read, built⟩ := bind_eq_ok.mp built
      exact ⟨.int z, ⟨z, rfl, denotes_of_signed read⟩, rfl, built⟩
  case h_14 bits value => exact ⟨_, ⟨value, rfl, .uint value⟩, rfl, built⟩
  case h_15 bits value =>
      split at built
      · rename_i nonnegative
        refine ⟨.uint value.toNat, ⟨value.toNat, rfl, ?_⟩, rfl, built⟩
        rw [Int.toNat_of_nonneg nonnegative]
        exact .int value
      · cases built
  case h_16 bits text =>
      obtain ⟨n, read, built⟩ := bind_eq_ok.mp built
      exact ⟨.uint n, ⟨n, rfl, .positive (Numeral.literal_of_unsigned read)⟩, rfl, built⟩
  case h_17 | h_18 | h_19 | h_20 => cases lossless
  case h_21 => cases built

end Kind

def Token.Normal (kind : Kind) : (dims : List Dim) → (token normal : Token) → Prop
  | [], token, normal => kind.Normal token normal
  | _ :: inner, .array items, .array normals => List.Forall₂ (Normal kind inner) items normals
  | _ :: _, _, _ => False

variable {kind : Kind} {dims inner : List Dim} {dim : Dim} {token : Token}

theorem leafOfToken_of_ofToken {leaf : Payload []}
    (built : Payload.ofToken kind [] token = .ok leaf) :
    kind.leafOfToken token = .ok leaf ∧ token.leaves = [token] := by
  cases token with
  | array items => cases built
  | _ => exact ⟨built, rfl⟩

theorem items_of_ofToken {payload : Payload (dim :: inner)}
    (built : Payload.ofToken kind (dim :: inner) token = .ok payload) :
    ∃ items, token = .array items ∧
      List.Forall₂ (fun item element => Payload.ofToken kind inner item = .ok element) items
        payload.items := by
  cases token with
  | array items =>
      obtain ⟨_, -, built⟩ := bind_eq_ok.mp built
      obtain ⟨_, -, built⟩ := bind_eq_ok.mp built
      exact ⟨items, rfl, mapM_eq_ok.mp built⟩
  | _ => cases built

theorem toToken_normal_of_ofToken {payload : Payload dims} (valid : kind.Valid)
    (lossless : kind.isFixedPoint = false)
    (built : Payload.ofToken kind dims token = .ok payload) :
    ∃ normal, payload.toToken kind dims = .ok normal ∧ token.Normal kind dims normal := by
  induction dims generalizing token with
  | nil =>
      obtain ⟨built, -⟩ := leafOfToken_of_ofToken built
      obtain ⟨normal, same, variant, again⟩ := Kind.normal_of_leafOfToken lossless built
      exact ⟨normal, Kind.tokenOfLeaf_of_leafOfToken valid lossless variant again, same⟩
  | cons dim inner ih =>
      obtain ⟨items, rfl, pairs⟩ := items_of_ofToken built
      obtain ⟨normals, given, same⟩ := exists_forall₂_both pairs fun _ _ built => ih built
      exact ⟨.array normals, bind_eq_ok.mpr ⟨normals, mapM_eq_ok.mpr given, rfl⟩, same⟩

theorem leafCount_of_ofToken {payload : Payload dims}
    (built : Payload.ofToken kind dims token = .ok payload) :
    payload.leafCount dims = token.leaves.length := by
  induction dims generalizing token with
  | nil =>
      obtain ⟨-, leaves⟩ := leafOfToken_of_ofToken built
      rw [leaves]
      rfl
  | cons dim inner ih =>
      obtain ⟨items, rfl, pairs⟩ := items_of_ofToken built
      rw [Token.leaves_array, Payload.leafCount]
      change List.foldr _ _ payload.items = _
      clear built
      generalize payload.items = elements at pairs
      induction pairs with
      | nil => rfl
      | cons first _ sum =>
          rw [List.foldr_cons, List.flatMap_cons, List.length_append, ih first, sum]

theorem Value.exists_normal {ty : Ty} {value : Value} (lossless : ty.kind.isFixedPoint = false)
    (built : ofToken ty token = .ok value) :
    ∃ normal, value.toToken = .ok normal ∧ token.Normal ty.kind ty.dims normal := by
  obtain ⟨payload, ok, same⟩ := bind_eq_ok.mp built
  cases same
  exact toToken_normal_of_ofToken ty.valid.1 lossless ok

/-- What was accepted is given back, every scalar in the normal form of the kind. The fixed-point
kinds round. -/
theorem toToken_normal {ty : Ty} {value : Value} (lossless : ty.kind.isFixedPoint = false)
    (built : Value.ofToken ty token = .ok value) :
    ∃ normal, value.toToken = .ok normal ∧ token.Normal ty.kind ty.dims normal ∧
      Value.ofToken ty normal = .ok value ∧ value.leafCount = token.leaves.length := by
  have wellFormed := Value.wellFormed_of_ofToken built
  obtain ⟨normal, given, corresponds⟩ := Value.exists_normal lossless built
  obtain ⟨payload, ok, same⟩ := bind_eq_ok.mp built
  cases same
  exact ⟨normal, given, corresponds, Value.ofToken_of_toToken wellFormed lossless given,
    leafCount_of_ofToken ok⟩

def pairsOfBytes : Ty :=
  ⟨.fixedBytes 2, [.dynamic, .fixed 2], by decide⟩

def writtenBytes : Token :=
  .array [.array [.string "0xaBc0", .string "007F"], .array [.bytes [1, 2]]]

def writtenBytesValue : Value :=
  let items : List (List Bytes) := [[[0xab, 0xc0], [0, 0x7f]], [[1, 2]]]
  ⟨pairsOfBytes, items⟩

theorem toToken_normal_writtenBytes :
    pairsOfBytes.kind.isFixedPoint = false ∧
    Value.ofToken pairsOfBytes writtenBytes = .ok writtenBytesValue ∧
    writtenBytesValue.toToken = .ok (.array [
      .array [.fixedBytes [0xab, 0xc0], .fixedBytes [0, 0x7f]], .array [.fixedBytes [1, 2]]]) ∧
    writtenBytesValue.leafCount = 3 := by
  have built : Value.ofToken pairsOfBytes writtenBytes = .ok writtenBytesValue := rfl
  obtain ⟨normal, given, -, -, count⟩ := toToken_normal rfl built
  have known : writtenBytesValue.toToken = .ok (.array [
      .array [.fixedBytes [0xab, 0xc0], .fixedBytes [0, 0x7f]],
      .array [.fixedBytes [1, 2]]]) := rfl
  cases known.symm.trans given
  exact ⟨rfl, built, given, count⟩

end Abi

end NodeProtocol
