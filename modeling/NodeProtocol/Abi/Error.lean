import NodeProtocol.Abi.Kind
import NodeProtocol.Abi.Token

namespace NodeProtocol.Abi

inductive Mismatch
  | variant (expected : Kind) (found : Token.Variant)
  | numeral (found : String)
  deriving DecidableEq, Repr

inductive ShapeFault
  | arrayForScalar (kind : Kind)
  | scalarForArray (depth : Nat) (found : Token.Variant)
  deriving DecidableEq, Repr

inductive Overflow
  | number (shown : String)
  | width (value : Int) (kind : Kind)
  deriving DecidableEq, Repr

inductive Error
  | invalidType (text : String)
  | invalidSignature (text : String)
  | typeMismatch (cause : Mismatch)
  | shapeMismatch (cause : ShapeFault)
  | mixedArray (first other : Token.Variant)
  | tooManyElements (capacity found : Nat)
  | invalidLength (expected found : Nat)
  | overflow (cause : Overflow)
  | negativeUnsigned (shown : String)
  | invalidHex (cause : Hex.Error)
  | invalidUtf8
  | lengthOutOfBounds (count : Nat)
  | argumentCount (expected found : Nat)
  deriving DecidableEq, Repr

def Mismatch.message : Mismatch → String
  | variant expected found => "expected " ++ expected.name ++ ", found " ++ found.name
  | numeral found => "expected numeric literal, found " ++ found

def ShapeFault.message : ShapeFault → String
  | arrayForScalar kind => "expected " ++ kind.name ++ " scalar, found array"
  | scalarForArray depth found =>
    "expected array of depth " ++ Text.decimal depth ++ ", found " ++ found.name

def Overflow.message : Overflow → String
  | number shown => shown
  | width value kind => Text.signedDecimal value ++ " does not fit " ++ kind.name

def Error.message : Error → String
  | invalidType text => "Invalid type string: " ++ Text.quoted text
  | invalidSignature text => "Invalid signature: " ++ Text.quoted text
  | typeMismatch cause => "Type mismatch: " ++ cause.message
  | shapeMismatch cause => "Shape mismatch: " ++ cause.message
  | mixedArray first other => "Mixed array: " ++ first.name ++ " alongside " ++ other.name
  | tooManyElements capacity found =>
    "Too many elements: fixed array holds " ++ Text.decimal capacity ++ ", got " ++
      Text.decimal found
  | invalidLength expected found =>
    "Invalid length: expected " ++ Text.decimal expected ++ " bytes, got " ++ Text.decimal found
  | overflow cause => "Value out of range: " ++ cause.message
  | negativeUnsigned shown => "Negative value for unsigned kind: " ++ shown
  | invalidHex cause => "Invalid hex: " ++ cause.message
  | invalidUtf8 => "Decoded string is not valid UTF-8"
  | lengthOutOfBounds count => "Decoded length " ++ Text.decimal count ++ " exceeds buffer"
  | argumentCount expected found =>
    "Argument count mismatch: expected " ++ Text.decimal expected ++ ", got " ++
      Text.decimal found

end NodeProtocol.Abi
