import NodeProtocol.Abi.Error
import NodeProtocol.Text.Blank

namespace NodeProtocol.Abi.Numeral

inductive Fault
  | notNumeric
  | tooLarge
  deriving DecidableEq, Repr

def readDigits (radix value : Nat) : List Char → Except Fault Nat
  | [] => .ok value
  | c :: cs =>
    match Text.digitValue? radix c with
    | none => .error .notNumeric
    | some digit =>
      if radix * value + digit < Word.modulus then readDigits radix (radix * value + digit) cs
      else .error .tooLarge

def readMagnitude (radix : Nat) (text : List Char) : Except Fault Nat :=
  let digits := (Text.after? ['+'] text).getD text
  if digits.isEmpty then .error .notNumeric else readDigits radix 0 digits

def magnitude (text : List Char) : Except Error Nat :=
  let read := match Text.after? ['0', 'x'] text with
    | some digits => readMagnitude 16 digits
    | none => readMagnitude 10 text
  read.mapError fun
    | .notNumeric => .typeMismatch (.numeral (String.ofList text))
    | .tooLarge => .overflow (.number (String.ofList text))

def unsigned (text : String) : Except Error Nat :=
  let text := Text.trim text.toList
  if text.head? = some '-' then .error (.negativeUnsigned (String.ofList text))
  else magnitude text

def signed (text : String) : Except Error Int := do
  let text := Text.trim text.toList
  let outOfRange := Error.overflow (.number (String.ofList text))
  match Text.after? ['-'] text with
  | some digits =>
    let n ← magnitude digits
    if n ≤ Word.signedBound then return -n else throw outOfRange
  | none =>
    let n ← magnitude text
    if n < Word.signedBound then return n else throw outOfRange

end NodeProtocol.Abi.Numeral
