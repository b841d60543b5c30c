import NodeProtocol.Text.Quoted
import NodeProtocol.Text.Utf8

namespace NodeProtocol.Hex

inductive Error
  | oddLength
  | invalidByte (byte : UInt8) (position : Nat)
  deriving DecidableEq, Repr

def Error.message : Error → String
  | oddLength => "Odd number of digits"
  | invalidByte byte position =>
    "Invalid character " ++ Text.quotedChar (Char.ofUInt8 byte) ++ " at position " ++
      Text.decimal position

def digit (value : UInt8) : UInt8 :=
  if value < 10 then 48 + value else 87 + value

def value? (digit : UInt8) : Option UInt8 :=
  if 48 ≤ digit ∧ digit ≤ 57 then some (digit - 48)
  else if 97 ≤ digit ∧ digit ≤ 102 then some (digit - 87)
  else if 65 ≤ digit ∧ digit ≤ 70 then some (digit - 55)
  else none

def encodeBytes (bytes : Bytes) : Bytes :=
  bytes.flatMap fun byte => [digit (byte / 16), digit (byte % 16)]

def encode (bytes : Bytes) : String :=
  String.ofList ((encodeBytes bytes).map Char.ofUInt8)

def readDigit (digit : UInt8) (position : Nat) : Except Error UInt8 :=
  match value? digit with
  | some value => .ok value
  | none => .error (.invalidByte digit position)

def decodeFrom (position : Nat) : Bytes → Except Error Bytes
  | high :: low :: rest => do
    let high ← readDigit high position
    let low ← readDigit low (position + 1)
    let bytes ← decodeFrom (position + 2) rest
    return (16 * high + low) :: bytes
  | _ => .ok []

def decodeBytes (digits : Bytes) : Except Error Bytes :=
  if digits.length % 2 = 1 then .error .oddLength else decodeFrom 0 digits

theorem value?_digit {n : UInt8} (h : n < 16) : value? (digit n) = some n := by
  have all : ∀ n : Fin 16, value? (digit (UInt8.ofNat n)) = some (UInt8.ofNat n) := by decide
  simpa using all ⟨n.toNat, h⟩

theorem decodeFrom_encodeBytes (position : Nat) (bytes : Bytes) :
    decodeFrom position (encodeBytes bytes) = .ok bytes := by
  induction bytes generalizing position with
  | nil => rfl
  | cons byte bytes ih =>
    have high : value? (digit (byte / 16)) = some (byte / 16) := value?_digit (by
      rw [UInt8.lt_iff_toNat_lt, UInt8.toNat_div]
      have := byte.toNat_lt
      simp
      omega)
    have low : value? (digit (byte % 16)) = some (byte % 16) :=
      value?_digit (UInt8.mod_lt _ (by decide))
    have whole : 16 * (byte / 16) + byte % 16 = byte := by
      apply UInt8.toNat_inj.mp
      have := byte.toNat_lt
      simp [UInt8.toNat_add, UInt8.toNat_mul, UInt8.toNat_div, UInt8.toNat_mod]
      omega
    rw [show encodeBytes (byte :: bytes) =
      digit (byte / 16) :: digit (byte % 16) :: encodeBytes bytes from rfl]
    simp [decodeFrom, readDigit, high, low, ih, whole, bind, Except.bind, pure, Except.pure]

theorem decodeBytes_encodeBytes (bytes : Bytes) : decodeBytes (encodeBytes bytes) = .ok bytes := by
  have even : (encodeBytes bytes).length = 2 * bytes.length := by
    induction bytes with
    | nil => rfl
    | cons byte bytes ih =>
      simp only [encodeBytes, List.flatMap_cons, List.length_append, List.length_cons,
        List.length_nil] at ih ⊢
      omega
  rw [decodeBytes, if_neg (by omega), decodeFrom_encodeBytes]

def decode (text : String) : Except Error Bytes :=
  decodeBytes (Text.utf8 text)

def dropMark (text : String) : String :=
  match text.toList with
  | '0' :: 'x' :: rest => String.ofList rest
  | _ => text

end NodeProtocol.Hex
