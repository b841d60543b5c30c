import NodeProtocol.Abi.Leaf
import NodeProtocol.Abi.Ty

namespace NodeProtocol.Abi

def Payload : List Dim → Type
  | [] => Bytes
  | _ :: inner => List (Payload inner)

inductive Tree
  | leaf (bytes : Bytes)
  | list (items : List Tree)

def checkUniform : List Token → Except Error Unit
  | [] => .ok ()
  | first :: rest =>
    match rest.find? (·.variant ≠ first.variant) with
    | some other => .error (.mixedArray first.variant other.variant)
    | none => .ok ()

def Dim.checkRoom (dim : Dim) (count : Nat) : Except Error Unit :=
  match dim with
  | dynamic => .ok ()
  | fixed length => if count ≤ length then .ok () else .error (.tooManyElements length count)

namespace Payload

def decEq : (dims : List Dim) → DecidableEq (Payload dims)
  | [] => inferInstanceAs (DecidableEq Bytes)
  | _ :: inner =>
    have := decEq inner
    inferInstanceAs (DecidableEq (List (Payload inner)))

instance (dims : List Dim) : DecidableEq (Payload dims) := decEq dims

def ofToken (kind : Kind) : (dims : List Dim) → Token → Except Error (Payload dims)
  | [], .array _ => .error (.shapeMismatch (.arrayForScalar kind))
  | [], token => kind.leafOfToken token
  | dim :: inner, .array items => do
    checkUniform items
    dim.checkRoom items.length
    items.mapM (ofToken kind inner)
  | _ :: inner, token =>
    .error (.shapeMismatch (.scalarForArray (inner.length + 1) token.variant))

def toToken (kind : Kind) : (dims : List Dim) → Payload dims → Except Error Token
  | [], leaf => kind.tokenOfLeaf leaf
  | _ :: inner, items => do return .array (← List.mapM (toToken kind inner) items)

def leafCount : (dims : List Dim) → Payload dims → Nat
  | [], _ => 1
  | _ :: inner, items => List.foldr (leafCount inner · + ·) 0 items

def tree : (dims : List Dim) → Payload dims → Tree
  | [], leaf => .leaf leaf
  | _ :: inner, items => .list (List.map (tree inner) items)

end Payload

end NodeProtocol.Abi
