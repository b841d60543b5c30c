import NodeProtocol.Abi.Layout

namespace NodeProtocol.Abi

structure Value where
  type : Ty
  payload : Payload type.dims
  deriving DecidableEq

namespace Value

def ofToken (ty : Ty) (token : Token) : Except Error Value := do
  return ⟨ty, ← Payload.ofToken ty.kind ty.dims token⟩

def staticLength (value : Value) : Nat :=
  value.type.staticLength

def part (value : Value) (start : Nat) : Part :=
  Part.ofPayload value.type.kind value.type.dims value.payload start

def encode (value : Value) : Bytes :=
  (value.part value.staticLength).bytes

def tailOffset? (value : Value) : Option Nat :=
  if value.type.hasTail then some value.staticLength else none

def tailLength (value : Value) : Nat :=
  value.encode.length - value.staticLength

def toToken (value : Value) : Except Error Token :=
  value.payload.toToken value.type.kind value.type.dims

def leafCount (value : Value) : Nat :=
  value.payload.leafCount value.type.dims

def tree (value : Value) : Tree :=
  value.payload.tree value.type.dims

def decode (ty : Ty) (data : Bytes) (offset : Nat) : Except Error Value := do
  ofToken ty (← ty.decode data offset)

end Value

end NodeProtocol.Abi
