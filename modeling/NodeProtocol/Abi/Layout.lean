import NodeProtocol.Abi.Payload

/-!
# Layout

An encoding is a head followed by a tail. In the head every value has its static part in place:
the padded word of a static scalar, and the static parts of the elements of a fixed dimension one
stride apart, missing elements being zeros. A dynamic scalar and a dynamic dimension have a
pointer in place, the position of their content in the whole encoding, with zeros behind it up to
the static length of the type. The content lies in the tail and is a length or count word, then
the padded data or the static parts of the elements.

* `Part.ofPayload` lays out a payload whose own content begins at a given position.
* `decodeStatic` reads a token. The elements of dynamic dimensions are paid for from a budget of
  as many bytes as there are, so that pointers to shared bytes cannot multiply them; what texts and
  byte strings hold is not paid for.
-/

namespace NodeProtocol.Abi

structure Part where
  head : Bytes
  content : Bytes
  deriving DecidableEq

namespace Part

def sequence (part : α → (start : Nat) → Part) : List α → (start : Nat) → Part
  | [], _ => ⟨[], []⟩
  | item :: items, start =>
    let first := part item start
    let rest := sequence part items (start + first.content.length)
    ⟨first.head ++ rest.head, first.content ++ rest.content⟩

def bytes (part : Part) : Bytes :=
  part.head ++ part.content

def fill (part : Part) (length : Nat) : Part :=
  { part with head := part.head ++ List.replicate (length - part.head.length) 0 }

def indirect (kind : Kind) (start : Nat) (content : Bytes) : Part :=
  ⟨Word.ofUnsigned start kind.wordSize, content⟩

def ofPayload (kind : Kind) : (dims : List Dim) → Payload dims → (start : Nat) → Part
  | [], leaf, start =>
    if kind.isDynamic then indirect kind start (kind.encode leaf) else ⟨kind.encode leaf, []⟩
  | .fixed length :: inner, items, start =>
    (sequence (ofPayload kind inner) (List.take length items) start).fill
      (staticLength kind (.fixed length :: inner))
  | .dynamic :: inner, items, start =>
    let count := List.length items
    let elements := start + kind.wordSize + count * stride kind inner
    let parts := sequence (ofPayload kind inner) items elements
    (indirect kind start (Word.ofUnsigned count kind.wordSize ++ parts.bytes)).fill
      (staticLength kind (.dynamic :: inner))

end Part

def maxPosition : Nat := Word.positionBound - 1

/-- The position `distance` bytes further on, which stops at the largest one. -/
def advance (offset distance : Nat) : Nat :=
  min (offset + distance) maxPosition

/-- A pointer or count word. Nothing at `offset` reads as zero, and a value that is no position as
the largest one, which lies beyond any data. -/
def readPosition (data : Bytes) (offset wordSize : Nat) : Nat :=
  match Word.read? data offset wordSize with
  | some word => (Word.toPosition? word).getD maxPosition
  | none => 0

abbrev Decoder := StateT Nat (Except Error)

def claim (count stride : Nat) : Decoder Unit := fun budget =>
  if count * stride ≤ budget then .ok ((), budget - count * stride)
  else .error (.lengthOutOfBounds count)

def decodeElements (element : (offset : Nat) → Decoder Token) (first stride count : Nat) :
    Decoder Token := do
  let items ← (List.range count).mapM fun i => element (advance first (i * stride))
  return .array items

def decodeStatic (kind : Kind) (data : Bytes) :
    (dims : List Dim) → (offset : Nat) → Decoder Token
  | [], offset =>
    let position :=
      if kind.isDynamic then readPosition data offset kind.wordSize else offset
    liftM (kind.decode data position)
  | .fixed length :: inner, offset =>
    decodeElements (decodeStatic kind data inner) offset (stride kind inner) length
  | .dynamic :: inner, offset => do
    let pointer := readPosition data offset kind.wordSize
    let count := readPosition data pointer kind.wordSize
    claim count (stride kind inner)
    decodeElements (decodeStatic kind data inner) (advance pointer kind.wordSize)
      (stride kind inner) count

def Ty.decode (ty : Ty) (data : Bytes) (offset : Nat) : Except Error Token :=
  (decodeStatic ty.kind data ty.dims offset).run' data.length

end NodeProtocol.Abi
