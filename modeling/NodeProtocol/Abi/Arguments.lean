import NodeProtocol.Abi.Value

namespace NodeProtocol.Abi

def headLength : List Value → Nat
  | [] => 0
  | value :: values => value.staticLength + headLength values

def offsetsFrom (start : Nat) : (lengths : List Nat) → List Nat
  | [] => []
  | length :: lengths => start :: offsetsFrom (start + length) lengths

def headOffsets (values : List Value) : List Nat :=
  offsetsFrom 0 (values.map Value.staticLength)

def encodeArguments (values : List Value) : Bytes :=
  (Part.sequence Value.part values (headLength values)).bytes

/-- Each argument is read with a budget of its own. -/
def decodeArguments (types : List Ty) (data : Bytes) : Except Error (List Token) :=
  (types.zip (offsetsFrom 0 (types.map Ty.staticLength))).mapM fun (ty, offset) =>
    ty.decode data offset

def valuesOfTokens (types : List Ty) (tokens : List Token) : Except Error (List Value) :=
  if types.length = tokens.length then
    (types.zip tokens).mapM fun (ty, token) => Value.ofToken ty token
  else .error (.argumentCount types.length tokens.length)

end NodeProtocol.Abi
