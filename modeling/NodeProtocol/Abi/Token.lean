import NodeProtocol.Hex
import NodeProtocol.Numeric.Shortest

namespace NodeProtocol.Abi

inductive Token
  | address (bytes : BytesOf 20)
  | bool (value : Bool)
  | fixedBytes (bytes : Bytes)
  | bytes (bytes : Bytes)
  | int (value : Int)
  | uint (value : Nat)
  | real (value : Binary64)
  | string (text : String)
  | array (items : List Token)

namespace Token

inductive Variant
  | address
  | bool
  | fixedBytes
  | bytes
  | int
  | uint
  | real
  | string
  | array
  deriving DecidableEq, Repr

def Variant.name : Variant → String
  | address => "address"
  | bool => "bool"
  | fixedBytes => "fixed bytes"
  | bytes => "bytes"
  | int => "int"
  | uint => "uint"
  | real => "real"
  | string => "string"
  | array => "array"

def variant : Token → Variant
  | address _ => .address
  | bool _ => .bool
  | fixedBytes _ => .fixedBytes
  | bytes _ => .bytes
  | int _ => .int
  | uint _ => .uint
  | real _ => .real
  | string _ => .string
  | array _ => .array

def toArray? : Token → Option (List Token)
  | array items => some items
  | _ => none

def toUint? : Token → Option Nat
  | uint value => some value
  | _ => none

def toInt? : Token → Option Int
  | int value => some value
  | _ => none

def toText? : Token → Option String
  | string text => some text
  | _ => none

mutual

def text : Token → String
  | address data => "0x" ++ Hex.encode data.val
  | bool value => if value then "true" else "false"
  | fixedBytes data | bytes data => "0x" ++ Hex.encode data
  | int value => Text.signedDecimal value
  | uint value => Text.decimal value
  | real value => value.text
  | string value => Text.quoted value
  | array items => "[" ++ ",".intercalate (texts items) ++ "]"

def texts : List Token → List String
  | [] => []
  | token :: tokens => token.text :: texts tokens

end

end Token

end NodeProtocol.Abi
