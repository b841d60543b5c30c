import NodeProtocol.Abi.Error

/-!
# Types

A type is a scalar kind inside array dimensions, the outermost dimension first. In the text of a
type the dimensions follow the kind and read innermost first: `address[3][]` is an array of any
number of arrays of three addresses.

* `Ty.Valid` says which kinds and dimensions make a type; every `Ty` carries the proof, so
  that it holds of each element type as well (`Valid.tail`).
* `Ty.ofParts` and `Ty.parse` build types, and `Ty.text` writes one.
* `staticLength` and `stride` say how much room a type takes in place.
-/

namespace NodeProtocol.Abi

inductive Dim
  | dynamic
  | fixed (length : Nat)
  deriving DecidableEq, Repr

namespace Dim

def text : Dim → String
  | dynamic => "[]"
  | fixed length => "[" ++ Text.decimal length ++ "]"

def factor : Dim → Nat
  | dynamic => 1
  | fixed length => length

def slots : List Dim → Nat
  | [] => 1
  | dim :: inner => dim.factor * slots inner

end Dim

def maxDimensions : Nat := 16

def maxSlots : Nat := 1 <<< 20

def renderType (kind : Kind) (dims : List Dim) : String :=
  kind.name ++ String.join (dims.reverse.map Dim.text)

def staticLength (kind : Kind) (dims : List Dim) : Nat :=
  kind.wordSize * Dim.slots dims

def stride (kind : Kind) (inner : List Dim) : Nat :=
  Word.roundUp (staticLength kind inner) kind.wordSize

def Ty.Valid (kind : Kind) (dims : List Dim) : Prop :=
  kind.Valid ∧ dims.length ≤ maxDimensions ∧ Dim.fixed 0 ∉ dims ∧ Dim.slots dims ≤ maxSlots

instance (kind : Kind) (dims : List Dim) : Decidable (Ty.Valid kind dims) := by
  unfold Ty.Valid
  infer_instance

/-- The width of the kind is one of those documented. A scalar type that was made without a check of
its width, and has another one, is not modelled. -/
structure Ty where
  kind : Kind
  /-- Outermost first. -/
  dims : List Dim
  valid : Ty.Valid kind dims
  deriving DecidableEq

namespace Ty

inductive Placement
  | static
  | dynamic
  | staticArray
  | dynamicArray
  deriving DecidableEq, Repr

def Placement.isDynamic : Placement → Bool
  | dynamic | dynamicArray => true
  | _ => false

theorem Valid.tail {kind : Kind} {dim : Dim} {inner : List Dim} (h : Valid kind (dim :: inner)) :
    Valid kind inner := by
  obtain ⟨kindValid, depth, nonempty, slots⟩ := h
  simp only [List.length_cons, List.mem_cons, not_or] at depth nonempty
  refine ⟨kindValid, by omega, nonempty.2, Nat.le_trans ?_ slots⟩
  apply Nat.le_mul_of_pos_left
  cases dim with
  | dynamic => exact Nat.one_pos
  | fixed length =>
    refine Nat.pos_of_ne_zero fun zero => nonempty.1 ?_
    rw [show length = 0 from zero]

def ofParts (kind : Kind) (dims : List Dim) : Except Error Ty :=
  if ¬kind.Valid then .error (.invalidType kind.name)
  else if valid : Valid kind dims then .ok ⟨kind, dims, valid⟩
  else .error (.invalidType (renderType kind dims))

def readDim? (size : List Char) : Option Dim :=
  if size.isEmpty then some .dynamic else (Text.decimalValue? size).map .fixed

/-- Reads bracketed lengths up to the end of the text, the first one first. Within brackets,
`size` holds what was read since the opening one, last character first. -/
def readDims? : (size : Option (List Char)) → List Char → Option (List Dim)
  | none, [] => some []
  | none, c :: cs => if c = '[' then readDims? (some []) cs else none
  | some _, [] => none
  | some size, c :: cs =>
    if c = ']' then do
      let dim ← readDim? size.reverse
      let rest ← readDims? none cs
      return dim :: rest
    else readDims? (some (c :: size)) cs

def parse? (text : List Char) : Option Ty := do
  let kind ← Kind.ofChars? (text.takeWhile (· ≠ '['))
  let suffixes ← readDims? none (text.dropWhile (· ≠ '['))
  if valid : Valid kind suffixes.reverse then some ⟨kind, suffixes.reverse, valid⟩ else none

def parse (text : String) : Except Error Ty :=
  match parse? text.toList with
  | some ty => .ok ty
  | none => .error (.invalidType text)

def parseAll (texts : List String) : Except Error (List Ty) :=
  texts.mapM parse

def text (ty : Ty) : String :=
  renderType ty.kind ty.dims

def isArray (ty : Ty) : Bool :=
  !ty.dims.isEmpty

def wordSize (ty : Ty) : Nat :=
  ty.kind.wordSize

def placement (ty : Ty) : Placement :=
  if ty.dims.isEmpty then if ty.kind.isDynamic then .dynamic else .static
  else if .dynamic ∈ ty.dims then .dynamicArray
  else .staticArray

def hasTail (ty : Ty) : Bool :=
  ty.kind.isDynamic || .dynamic ∈ ty.dims

def staticLength (ty : Ty) : Nat :=
  Abi.staticLength ty.kind ty.dims

def element? : Ty → Option Ty
  | ⟨_, [], _⟩ => none
  | ⟨kind, _ :: inner, valid⟩ => some ⟨kind, inner, valid.tail⟩

end Ty

def Kind.matchesType (kind : Kind) (text : String) : Bool :=
  (Ty.parse? text.toList).any (·.kind.sameFamily kind)

end NodeProtocol.Abi
