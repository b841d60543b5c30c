import NodeProtocol.Abi.Arguments
import NodeProtocol.Keccak.Digest
import NodeProtocol.Text.Blank

namespace NodeProtocol.Abi

structure Signature where
  name : String
  params : List Ty
  deriving DecidableEq

namespace Signature

def isNameChar (c : Char) : Bool :=
  c.isAlphanum || c = '_'

def parseParams? (body : List Char) : Option (List Ty) :=
  if (Text.trim body).isEmpty then some []
  else (Text.fields ',' body).mapM fun field => Ty.parse? (Text.trim field)

def closed? (text : List Char) : Option (List Char) :=
  if text.getLast? = some ')' then some text.dropLast else none

def parse? (text : List Char) : Option Signature := do
  let (name, rest) := Text.cut '(' (Text.trim text)
  let body ← closed? (← rest)
  if name.isEmpty || !name.all isNameChar then none
  else return ⟨String.ofList name, ← parseParams? body⟩

def parse (text : String) : Except Error Signature :=
  match parse? text.toList with
  | some signature => .ok signature
  | none => .error (.invalidSignature text)

def text (signature : Signature) : String :=
  signature.name ++ "(" ++ ",".intercalate (signature.params.map Ty.text) ++ ")"

def topic (signature : Signature) : Keccak.Digest :=
  Keccak.keccak256 (Text.utf8 signature.text)

def selector (signature : Signature) : Bytes :=
  signature.topic.val.take 4

def encodeCall (signature : Signature) (tokens : List Token) : Except Error Bytes := do
  let values ← valuesOfTokens signature.params tokens
  return signature.selector ++ encodeArguments values

end Signature

end NodeProtocol.Abi
