import NodeProtocol.Text.Digit
import NodeProtocol.Text.Split
import NodeProtocol.Word

namespace NodeProtocol.Abi

inductive Kind
  | address
  | bool
  | fixedBytes (length : Nat)
  | bytes
  | int (bits : Nat)
  | uint (bits : Nat)
  | real
  | ureal
  | string
  deriving DecidableEq, Repr

namespace Kind

def Valid : Kind → Prop
  | fixedBytes length => 1 ≤ length ∧ length ≤ 32
  | int bits | uint bits => bits % 8 = 0 ∧ 8 ≤ bits ∧ bits ≤ 128
  | _ => True

instance : DecidablePred Valid := fun kind => by
  cases kind <;> unfold Valid <;> infer_instance

def wordSize : Kind → Nat
  | address => Word.wideSize
  | fixedBytes length => if Word.size < length then Word.wideSize else Word.size
  | _ => Word.size

def isDynamic : Kind → Bool
  | bytes | string => true
  | _ => false

def sameFamily : Kind → Kind → Bool
  | fixedBytes _, fixedBytes _ | int _, int _ | uint _, uint _ => true
  | a, b => a = b

def name : Kind → String
  | address => "address"
  | bool => "bool"
  | fixedBytes length => "bytes" ++ Text.decimal length
  | bytes => "bytes"
  | int bits => "int" ++ Text.decimal bits
  | uint bits => "uint" ++ Text.decimal bits
  | real => "real"
  | ureal => "ureal"
  | string => "string"

def plainNames : List (String × Kind) :=
  [("address", address), ("bool", bool), ("bytes", bytes), ("string", string), ("real", real),
    ("ureal", ureal), ("int", int 128), ("uint", uint 128)]

/-- A width has no sign and no leading zero. -/
def width? (digits : List Char) : Option Nat :=
  if digits.head? = some '0' then none else Text.decimalValue? digits

def widthNames : List (String × (Nat → Kind)) :=
  [("bytes", fixedBytes), ("uint", uint), ("int", int)]

def ofChars? (text : List Char) : Option Kind :=
  match plainNames.find? (·.1.toList = text) with
  | some (_, kind) => some kind
  | none => do
    let (family, digits) ← widthNames.findSome? fun (name, family) =>
      (Text.after? name.toList text).map (family, ·)
    let kind := family (← width? digits)
    if kind.Valid then some kind else none

def ofName? (name : String) : Option Kind :=
  ofChars? name.toList

end Kind

end NodeProtocol.Abi
