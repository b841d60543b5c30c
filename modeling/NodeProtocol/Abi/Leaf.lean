import NodeProtocol.Abi.Numeral
import NodeProtocol.Numeric.FixedPoint

namespace NodeProtocol.Abi.Kind

def zero : Kind → Token
  | address => .address (BytesOf.zero 20)
  | bool => .bool false
  | fixedBytes length => .fixedBytes (List.replicate length 0)
  | bytes => .bytes []
  | int _ => .int 0
  | uint _ => .uint 0
  | real | ureal => .real .zero
  | string => .string ""

def encode (kind : Kind) (leaf : Bytes) : Bytes :=
  match kind with
  | bytes | string =>
    Word.ofUnsigned leaf.length kind.wordSize ++ Word.padRight leaf kind.wordSize
  | int _ | real =>
    let negative := leaf.head?.any (0x80 ≤ ·)
    Word.padLeft leaf kind.wordSize (if negative then 0xff else 0)
  | _ => Word.padLeft leaf kind.wordSize 0

def textToken (data : Bytes) : Except Error Token :=
  match Text.ofUtf8? data with
  | some text => .ok (.string text)
  | none => .error .invalidUtf8

def readData? (data : Bytes) (offset wordSize : Nat) : Option Bytes := do
  let word ← Word.read? data offset wordSize
  let length ← Word.toPosition? word
  Word.read? data (offset + wordSize) length

def ofWord (kind : Kind) (word : Bytes) : Token :=
  match kind with
  | address => .address (BytesOf.last 20 word)
  | bool => .bool (word.any (· ≠ 0))
  | fixedBytes length => .fixedBytes (word.takeLast length)
  | int _ => .int (Word.toSigned word)
  | uint _ => .uint (Word.toUnsigned word)
  | real => .real (FixedPoint.toBinary64 (Word.toSigned word))
  | ureal => .real (FixedPoint.toBinary64 (Word.toUnsigned word))
  | bytes | string => kind.zero

def decode (kind : Kind) (data : Bytes) (offset : Nat) : Except Error Token :=
  match kind with
  | bytes => .ok (.bytes ((readData? data offset kind.wordSize).getD []))
  | string => textToken ((readData? data offset kind.wordSize).getD [])
  | _ => .ok (((Word.read? data offset kind.wordSize).map kind.ofWord).getD kind.zero)

def exactLength (bytes : Bytes) (expected : Nat) : Except Error Bytes :=
  if bytes.length = expected then .ok bytes else .error (.invalidLength expected bytes.length)

def readHex (text : String) : Except Error Bytes :=
  (Hex.decode (Hex.dropMark text)).mapError .invalidHex

def valueBits (bits : Nat) : Nat := min bits 128

def signedLeaf (value : Int) (bits : Nat) : Except Error Bytes :=
  let half := (1 <<< valueBits bits) / 2
  if -half ≤ value ∧ value < half then .ok (Word.signedBytes value (bits / 8))
  else .error (.overflow (.width value (int bits)))

def unsignedLeaf (value bits : Nat) : Except Error Bytes :=
  if value < 1 <<< valueBits bits then .ok (Word.unsignedBytes value (bits / 8))
  else .error (.overflow (.width value (uint bits)))

def realLeaf (fixed : Option Int) (shown : String) : Except Error Bytes :=
  match fixed with
  | some n =>
    if -Word.signedBound ≤ n ∧ n < Word.signedBound then .ok (Word.signedBytes n Word.size)
    else .error (.overflow (.number shown))
  | none => .error (.overflow (.number shown))

def urealLeaf (fixed : Option Int) (shown : String) : Except Error Bytes :=
  match fixed with
  | some n =>
    if n < Word.modulus then .ok (Word.signedBytes n Word.size)
    else .error (.overflow (.number shown))
  | none => .error (.overflow (.number shown))

def leafOfToken : Kind → Token → Except Error Bytes
  | address, .address data => .ok data.val
  | address, .string text => do exactLength (← readHex text) 20
  | bool, .bool value => .ok [if value then 1 else 0]
  | fixedBytes length, .fixedBytes data | fixedBytes length, .bytes data =>
    exactLength data length
  | fixedBytes length, .string text => do exactLength (← readHex text) length
  | bytes, .bytes data | bytes, .fixedBytes data => .ok data
  | bytes, .string text => readHex text
  | string, .string text => .ok (Text.utf8 text)
  | int bits, .int value => signedLeaf value bits
  | int bits, .uint value =>
    if value < Word.signedBound then signedLeaf value bits
    else .error (.overflow (.number (Text.decimal value)))
  | int bits, .string text => do signedLeaf (← Numeral.signed text) bits
  | uint bits, .uint value => unsignedLeaf value bits
  | uint bits, .int value =>
    if 0 ≤ value then unsignedLeaf value.toNat bits
    else .error (.negativeUnsigned (Text.signedDecimal value))
  | uint bits, .string text => do unsignedLeaf (← Numeral.unsigned text) bits
  | real, .real value => realLeaf (FixedPoint.ofBinary64? value) value.text
  | real, .int value => realLeaf (some (FixedPoint.ofInt value)) (Text.signedDecimal value)
  | ureal, .real value =>
    if value.isBelowZero then .error (.negativeUnsigned value.text)
    else urealLeaf (FixedPoint.ofBinary64? value) value.text
  | ureal, .uint value => urealLeaf (some (FixedPoint.ofInt value)) (Text.decimal value)
  | kind, token => .error (.typeMismatch (.variant kind token.variant))

def tokenOfLeaf (kind : Kind) (leaf : Bytes) : Except Error Token :=
  match kind with
  | bytes => .ok (.bytes leaf)
  | string => textToken leaf
  | _ => kind.decode (kind.encode leaf) 0

end NodeProtocol.Abi.Kind
