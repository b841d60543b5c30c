import Mathlib.Logic.Relation
import NodeProtocol.Proofs.Abi.RoundTrip

/-!
# Layout on a 64-bit machine

Here types are checked and data is decoded once more, as a machine does it whose numbers are below
`2 ^ 64`. A sum, a difference or a product that is no such number is a fault, unless the operation
is meant to stop at the largest number, and so is a slice that does not lie inside its bytes. A
result of `none` is a fault.

* `checkParts` multiplies fixed lengths with a product that stops; `staticLength?` and `stride?` do
  not.
* `Follows`: in every budget that data can have, a run has no fault and does what a decoder does.
* `layout_fits`: the machine accepts the same types, and never has a fault.
-/

namespace NodeProtocol

namespace Machine

/-! ## Numbers and slices -/

def add? (a b : Nat) : Option Nat :=
  if a + b < Word.positionBound then some (a + b) else none

def sub? (a b : Nat) : Option Nat :=
  if b ≤ a then some (a - b) else none

def mul? (a b : Nat) : Option Nat :=
  if a * b < Word.positionBound then some (a * b) else none

def addUpTo (a b : Nat) : Nat :=
  min (a + b) Abi.maxPosition

def mulUpTo (a b : Nat) : Nat :=
  min (a * b) Abi.maxPosition

def slice? (bytes : Bytes) (start stop : Nat) : Option Bytes :=
  if start ≤ stop ∧ stop ≤ bytes.length then some ((bytes.take stop).drop start) else none

def blit? (target : Bytes) (start : Nat) (source : Bytes) : Option Bytes := do
  let room ← slice? target start target.length
  if source.length = room.length then some (target.take start ++ source) else none

theorem sub?_of_le {a b : Nat} (h : b ≤ a) : sub? a b = some (a - b) :=
  if_pos h

theorem mul?_of_lt {a b : Nat} (h : a * b < Word.positionBound) : mul? a b = some (a * b) :=
  if_pos h

theorem slice?_to_end {bytes : Bytes} {start : Nat} (h : start ≤ bytes.length) :
    slice? bytes start bytes.length = some (bytes.drop start) := by
  rw [slice?, if_pos ⟨h, Nat.le_refl _⟩, List.take_length]

theorem blit?_of_length {target source : Bytes} {start : Nat}
    (h : start + source.length = target.length) :
    blit? target start source = some (target.take start ++ source) := by
  have same : source.length = (target.drop start).length := by
    rw [List.length_drop]
    omega
  rw [blit?, slice?_to_end (by omega)]
  exact if_pos same

/-! ## Words -/

def readWord? (data : Bytes) (offset width : Nat) : Option Bytes := do
  slice? data offset (← add? offset width)

def toUnsigned? (word : Bytes) : Option Nat := do
  let count := min word.length Word.size
  let low ← slice? word (← sub? word.length count) word.length
  let value ← blit? (List.replicate Word.size 0) (← sub? Word.size count) low
  return Bytes.toNat value

def toPosition? (word : Bytes) : Option (Option Nat) := do
  let high ← slice? word 0 (word.length - Word.size)
  if high.any (· ≠ 0) then return none
  else
    let value ← toUnsigned? word
    return if value < Word.positionBound then some value else none

theorem readWord?_eq {data : Bytes} (addressable : data.length < Word.positionBound)
    (offset width : Nat) : readWord? data offset width = Word.read? data offset width := by
  rw [readWord?, add?, Word.read?, Bytes.slice?]
  by_cases fits : offset + width < Word.positionBound
  · rw [if_pos fits]
    change slice? data offset (offset + width) = _
    rw [slice?, List.drop_take, Nat.add_sub_cancel_left]
    simp only [Nat.le_add_right, true_and]
  · rw [if_neg fits, if_neg (by omega)]
    rfl

theorem toUnsigned?_eq (word : Bytes) : toUnsigned? word = some (Word.toUnsigned word) := by
  have count : min word.length Word.size ≤ word.length := Nat.min_le_left ..
  have narrow : min word.length Word.size ≤ Word.size := Nat.min_le_right ..
  have low : word.drop (word.length - min word.length Word.size) = word.takeLast Word.size := by
    rw [Bytes.takeLast]
    congr 1
    omega
  have value : blit? (List.replicate Word.size 0) (Word.size - min word.length Word.size)
      (word.takeLast Word.size) =
      some ((List.replicate Word.size 0).take (Word.size - min word.length Word.size) ++
        word.takeLast Word.size) := by
    apply blit?_of_length
    rw [Bytes.length_takeLast, List.length_replicate, Nat.sub_add_cancel narrow]
  rw [toUnsigned?, sub?_of_le count, sub?_of_le narrow]
  simp only [Option.bind_eq_bind, Option.bind_some, slice?_to_end (Nat.sub_le _ _), low, value]
  rw [List.take_replicate, Bytes.toNat_append, Bytes.toNat_replicate_zero, Nat.zero_mul,
    Nat.zero_add]
  rfl

theorem toPosition?_eq (word : Bytes) : toPosition? word = some (Word.toPosition? word) := by
  have high : slice? word 0 (word.length - Word.size) =
      some (word.take (word.length - Word.size)) := by
    rw [slice?, if_pos ⟨Nat.zero_le _, Nat.sub_le _ _⟩, List.drop_zero]
  rw [toPosition?, high, toUnsigned?_eq, Word.toPosition?]
  simp only [Option.bind_eq_bind, Option.bind_some, Option.pure_def]
  split <;> rfl

end Machine

namespace Abi.Machine

open NodeProtocol.Machine

/-! ## Types -/

def mulSlots (slots : Nat) : Dim → Nat
  | .dynamic => slots
  | .fixed length => mulUpTo slots length

def checkParts (kind : Kind) (dims : List Dim) : Except Error Unit :=
  if ¬kind.Valid then .error (.invalidType kind.name)
  else if maxDimensions < dims.length ∨ .fixed 0 ∈ dims then
    .error (.invalidType (renderType kind dims))
  else if maxSlots < dims.foldl mulSlots 1 then .error (.invalidType (renderType kind dims))
  else .ok ()

def mulLength? (length : Nat) : Dim → Option Nat
  | .dynamic => some length
  | .fixed count => mul? length count

def staticLength? (kind : Kind) (dims : List Dim) : Option Nat :=
  dims.foldlM mulLength? kind.wordSize

def roundUp? (n unit : Nat) : Option Nat :=
  if unit = 0 then some n else mul? (if n % unit = 0 then n / unit else n / unit + 1) unit

def stride? (kind : Kind) (inner : List Dim) : Option Nat := do
  roundUp? (← staticLength? kind inner) kind.wordSize

def fixedLengths (dims : List Dim) : List Nat :=
  dims.filterMap fun
    | .dynamic => none
    | .fixed length => some length

theorem slots_eq_prod (dims : List Dim) : Dim.slots dims = (fixedLengths dims).prod := by
  induction dims with
  | nil => rfl
  | cons dim inner ih =>
      cases dim with
      | dynamic => exact (Nat.one_mul _).trans ih
      | fixed length =>
          change length * Dim.slots inner = (length :: fixedLengths inner).prod
          rw [List.prod_cons, ih]

theorem foldl_mulSlots {dims : List Dim} (nonempty : .fixed 0 ∉ dims) {slots : Nat}
    (h : slots ≤ maxPosition) :
    dims.foldl mulSlots slots = min (slots * Dim.slots dims) maxPosition := by
  induction dims generalizing slots with
  | nil => rw [Dim.slots, Nat.mul_one, Nat.min_eq_left h, List.foldl_nil]
  | cons dim inner ih =>
      rw [List.mem_cons, not_or] at nonempty
      rw [List.foldl_cons, Dim.slots, ← Nat.mul_assoc]
      cases dim with
      | dynamic => rw [mulSlots, Dim.factor, Nat.mul_one, ih nonempty.2 h]
      | fixed length =>
          rw [mulSlots, mulUpTo, Dim.factor, ih nonempty.2 (Nat.min_le_right ..)]
          -- Once the product has stopped, further lengths leave it where it is.
          rcases Nat.le_total (slots * length) maxPosition with below | above
          · rw [Nat.min_eq_left below]
          · have more := Nat.le_mul_of_pos_right maxPosition (Dim.slots_pos nonempty.2)
            have most := Nat.mul_le_mul_right (Dim.slots inner) above
            rw [Nat.min_eq_right above, Nat.min_eq_right more, Nat.min_eq_right (more.trans most)]

theorem checkParts_eq (kind : Kind) (dims : List Dim) :
    checkParts kind dims = (Ty.ofParts kind dims).map fun _ => () := by
  rw [checkParts, Ty.ofParts]
  by_cases kindValid : kind.Valid
  · simp only [kindValid, not_true_eq_false, if_false]
    by_cases shape : maxDimensions < dims.length ∨ .fixed 0 ∈ dims
    · have invalid : ¬ Ty.Valid kind dims := by
        rintro ⟨-, depth, nonempty, -⟩
        exact shape.elim (fun deep => by omega) nonempty
      rw [if_pos shape, dif_neg invalid]
      rfl
    · obtain ⟨depth, nonempty⟩ := not_or.mp shape
      have limit : maxSlots < maxPosition := by decide
      have slots : maxSlots < dims.foldl mulSlots 1 ↔ maxSlots < Dim.slots dims := by
        rw [foldl_mulSlots nonempty (by decide), Nat.one_mul, Nat.lt_min]
        exact and_iff_left limit
      have valid : Ty.Valid kind dims ↔ ¬ maxSlots < dims.foldl mulSlots 1 := by
        rw [slots, Nat.not_lt]
        exact ⟨fun valid => valid.2.2.2,
          fun room => ⟨kindValid, Nat.not_lt.mp depth, nonempty, room⟩⟩
      rw [if_neg shape]
      by_cases room : maxSlots < dims.foldl mulSlots 1
      · rw [if_pos room, dif_neg (by rwa [valid, not_not])]
        rfl
      · rw [if_neg room, dif_pos (valid.mpr room)]
        rfl
  · simp only [kindValid, not_false_eq_true, if_true]
    rfl

/-! ## Lengths -/

theorem foldlM_mulLength? {dims : List Dim} (nonempty : .fixed 0 ∉ dims) {length : Nat}
    (room : length * Dim.slots dims < Word.positionBound) :
    dims.foldlM mulLength? length = some (length * Dim.slots dims) := by
  induction dims generalizing length with
  | nil => rw [Dim.slots, Nat.mul_one, List.foldlM_nil, Option.pure_def]
  | cons dim inner ih =>
      rw [List.mem_cons, not_or] at nonempty
      rw [Dim.slots, ← Nat.mul_assoc] at room ⊢
      have first : mulLength? length dim = some (length * dim.factor) := by
        cases dim with
        | dynamic => exact congrArg some (Nat.mul_one length).symm
        | fixed count =>
            exact mul?_of_lt ((Nat.le_mul_of_pos_right _ (Dim.slots_pos nonempty.2)).trans_lt room)
      rw [List.foldlM_cons, first, Option.bind_eq_bind, Option.bind_some, ih nonempty.2 room]

theorem staticLength?_eq {kind : Kind} {dims : List Dim} (valid : Ty.Valid kind dims) :
    staticLength? kind dims = some (staticLength kind dims) :=
  foldlM_mulLength? valid.2.2.1 ((staticLength_le valid).trans_lt (by decide))

theorem stride?_eq {kind : Kind} {inner : List Dim} (valid : Ty.Valid kind inner) :
    stride? kind inner = some (stride kind inner) := by
  have room : Dim.slots inner * kind.wordSize < Word.positionBound := by
    rw [Nat.mul_comm]
    exact (staticLength_le valid).trans_lt (by decide)
  rw [stride?, staticLength?_eq valid, stride_eq]
  change roundUp? (kind.wordSize * Dim.slots inner) kind.wordSize = _
  rw [roundUp?, if_neg kind.wordSize_pos.ne', Nat.mul_mod_right, if_pos rfl,
    Nat.mul_div_cancel_left _ kind.wordSize_pos, mul?_of_lt room, staticLength, Nat.mul_comm]

/-! ## Scalars -/

def readPosition? (data : Bytes) (offset wordSize : Nat) : Option Nat :=
  match readWord? data offset wordSize with
  | some word => do return (← toPosition? word).getD maxPosition
  | none => some 0

def readData? (data word : Bytes) (offset wordSize : Nat) : Option (Option Bytes) := do
  match ← toPosition? word with
  | some length => return readWord? data (← add? offset wordSize) length
  | none => return none

def ofWord? (kind : Kind) (data word : Bytes) (offset : Nat) : Option (Except Error Token) := do
  match kind with
  | .address =>
    let low ← slice? word (← sub? kind.wordSize 20) word.length
    let address ← blit? (List.replicate 20 0) 0 low
    return .ok (.address (← BytesOf.ofBytes? 20 address))
  | .bool => return .ok (.bool (word.any (· ≠ 0)))
  | .fixedBytes length =>
    return .ok (.fixedBytes (← slice? word (← sub? kind.wordSize length) word.length))
  | .int _ => return .ok (.int (Int.bmod (← toUnsigned? word) Word.modulus))
  | .uint _ => return .ok (.uint (← toUnsigned? word))
  | .real =>
    return .ok (.real (FixedPoint.toBinary64 (Int.bmod (← toUnsigned? word) Word.modulus)))
  | .ureal => return .ok (.real (FixedPoint.toBinary64 (← toUnsigned? word)))
  | .bytes => return .ok (.bytes ((← readData? data word offset kind.wordSize).getD []))
  | .string => return Kind.textToken ((← readData? data word offset kind.wordSize).getD [])

def scalar? (kind : Kind) (data : Bytes) (offset : Nat) : Option (Except Error Token) :=
  match readWord? data offset kind.wordSize with
  | some word => ofWord? kind data word offset
  | none => some (.ok kind.zero)

theorem ofWord?_address {data word : Bytes} {offset : Nat} (length : word.length = Word.wideSize) :
    ofWord? .address data word offset = some (.ok (Kind.ofWord .address word)) := by
  have narrow : sub? (Kind.wordSize .address) 20 = some 12 := rfl
  have low : slice? word 12 word.length = some (word.drop 12) :=
    slice?_to_end (by rw [length]; decide)
  have size : (word.drop 12).length = 20 := by
    rw [List.length_drop, length]
    rfl
  have copy : blit? (List.replicate 20 0) 0 (word.drop 12) = some (word.drop 12) :=
    blit?_of_length (by rw [size]; rfl)
  have last : BytesOf.last 20 word = ⟨word.drop 12, size⟩ := by
    refine Subtype.ext ?_
    change (List.replicate 20 0 ++ word).drop word.length = _
    rw [length, List.drop_append, List.length_replicate, List.drop_of_length_le (by decide)]
    rfl
  simp only [ofWord?, narrow, low, copy, BytesOf.ofBytes?, size, Option.bind_eq_bind,
    Option.bind_some, Kind.ofWord, last]
  rfl

section

variable {data : Bytes} (addressable : data.length < Word.positionBound)

include addressable

theorem readPosition?_eq (offset wordSize : Nat) :
    readPosition? data offset wordSize = some (readPosition data offset wordSize) := by
  rw [readPosition?, readWord?_eq addressable, readPosition]
  cases Word.read? data offset wordSize with
  | none => rfl
  | some word =>
      simp only [toPosition?_eq]
      rfl

theorem readData?_eq {word : Bytes} {offset wordSize : Nat}
    (found : Word.read? data offset wordSize = some word) :
    readData? data word offset wordSize = some (Kind.readData? data offset wordSize) := by
  have inside : offset + wordSize ≤ data.length := (Bytes.slice?_eq_some_iff.mp found).1
  have sum : add? offset wordSize = some (offset + wordSize) := if_pos (by omega)
  rw [readData?, toPosition?_eq, Kind.readData?, found, sum]
  simp only [Option.bind_eq_bind, Option.bind_some, Option.pure_def]
  cases Word.toPosition? word with
  | none => rfl
  | some length => exact congrArg some (readWord?_eq addressable _ _)

theorem scalar?_eq {kind : Kind} (valid : kind.Valid) (offset : Nat) :
    scalar? kind data offset = some (kind.decode data offset) := by
  rw [scalar?, readWord?_eq addressable]
  cases found : Word.read? data offset kind.wordSize with
  | none =>
      cases kind with
      | bytes | string => simp only [Kind.decode, Kind.readData?, found]; rfl
      | _ => simp only [Kind.decode, found]; rfl
  | some word =>
      have length : word.length = kind.wordSize := Bytes.length_slice? found
      cases kind with
      | address =>
          simp only [Kind.decode, found, ofWord?_address length]
          rfl
      | fixedBytes count =>
          have fits := Kind.fixedBytes_le_wordSize valid
          have low : slice? word (Kind.wordSize (.fixedBytes count) - count) word.length =
              some (word.takeLast count) := by
            rw [slice?_to_end (by omega), Bytes.takeLast, length]
          simp only [ofWord?, Kind.decode, found, sub?_of_le fits, Option.bind_eq_bind,
            Option.bind_some, low]
          rfl
      | bytes | string =>
          simp only [ofWord?, Kind.decode, readData?_eq addressable found, Option.bind_eq_bind,
            Option.bind_some]
          rfl
      | bool => simp only [ofWord?, Kind.decode, found]; rfl
      | int | uint | real | ureal =>
          simp only [ofWord?, Kind.decode, found, toUnsigned?_eq, Option.bind_eq_bind,
            Option.bind_some]
          rfl

end

/-! ## Decoding -/

abbrev Run := StateT Nat (ExceptT Error Option)

def Run.check {α : Type} (result : Option α) : Run α :=
  fun budget => result.map fun a => .ok (a, budget)

def Run.lift {α : Type} (result : Option (Except Error α)) : Run α :=
  fun budget => result.map (·.map (·, budget))

def claim? (count stride : Nat) : Run Unit := fun budget =>
  let demand := mulUpTo count stride
  if budget < demand then some (.error (.lengthOutOfBounds count))
  else (sub? budget demand).map fun rest => .ok ((), rest)

def elements? (element : (offset : Nat) → Run Token) (place : Nat → Option Nat) (count : Nat) :
    Run Token := do
  let items ← (List.range count).mapM fun i => do element (← Run.check (place i))
  return .array items

def decodeStatic? (kind : Kind) (data : Bytes) : (dims : List Dim) → (offset : Nat) → Run Token
  | [], offset =>
    if kind.isDynamic then do
      let pointer ← Run.check (readPosition? data offset kind.wordSize)
      Run.lift (scalar? kind data pointer)
    else Run.lift (scalar? kind data offset)
  | .fixed length :: inner, offset => do
    let stride ← Run.check (stride? kind inner)
    elements? (decodeStatic? kind data inner)
      (fun i => (mul? i stride).map (addUpTo offset)) length
  | .dynamic :: inner, offset => do
    let pointer ← Run.check (readPosition? data offset kind.wordSize)
    let count ← Run.check (readPosition? data pointer kind.wordSize)
    let stride ← Run.check (stride? kind inner)
    claim? count stride
    let first := addUpTo pointer kind.wordSize
    elements? (decodeStatic? kind data inner) (fun i => some (addUpTo first (mulUpTo i stride))) count

def decode? (ty : Ty) (data : Bytes) (offset : Nat) : Option (Except Error Token) :=
  Option.map (Except.map (·.1)) (decodeStatic? ty.kind data ty.dims offset data.length)

/-- Out of any budget that data can have, the run does what the decoder does, without a fault. -/
def Follows {α : Type} (run : Run α) (decoder : Decoder α) : Prop :=
  ∀ budget < 2 ^ 63, run budget = some (decoder budget) ∧
    ∀ {a rest}, decoder budget = .ok (a, rest) → rest ≤ budget

namespace Follows

variable {α β ι : Type}

theorem pure (value : α) : Follows (Pure.pure value) (Pure.pure value) := by
  intro budget _
  refine ⟨rfl, fun done => ?_⟩
  cases done
  exact Nat.le_refl _

theorem lift {result : Option (Except Error α)} {outcome : Except Error α}
    (h : result = some outcome) : Follows (Run.lift result) (liftM outcome) := by
  subst h
  intro budget _
  cases outcome with
  | error cause => exact ⟨rfl, nofun⟩
  | ok value =>
      refine ⟨rfl, fun done => ?_⟩
      cases done
      exact Nat.le_refl _

theorem bind {run : Run α} {next : α → Run β} {decoder : Decoder α} {next' : α → Decoder β}
    (first : Follows run decoder) (second : ∀ a, Follows (next a) (next' a)) :
    Follows (run >>= next) (decoder >>= next') := by
  intro budget room
  have paid := first budget room
  have ran : (run >>= next) budget =
      ExceptT.bind (run budget) fun result => next result.1 result.2 := rfl
  have decoded : (decoder >>= next') budget =
      decoder budget >>= fun (a, rest) => next' a rest := rfl
  rw [ran, decoded, paid.1]
  cases outcome : decoder budget with
  | error cause => exact ⟨rfl, nofun⟩
  | ok result =>
      obtain ⟨a, rest⟩ := result
      have less := paid.2 outcome
      obtain ⟨same, spends⟩ := second a rest (less.trans_lt room)
      exact ⟨same, fun done => (spends done).trans less⟩

theorem check {result : Option α} {a : α} {next : α → Run β} {decoder : Decoder β}
    (h : result = some a) (rest : Follows (next a) decoder) :
    Follows (Run.check result >>= next) decoder := by
  subst h
  exact rest

theorem mapM {items : List ι} {run : ι → Run α} {decoder : ι → Decoder α}
    (each : ∀ i ∈ items, Follows (run i) (decoder i)) :
    Follows (items.mapM run) (items.mapM decoder) := by
  induction items with
  | nil => exact pure []
  | cons i items ih =>
      rw [List.forall_mem_cons] at each
      rw [List.mapM_cons, List.mapM_cons]
      exact each.1.bind fun value => (ih each.2).bind fun values => pure (value :: values)

theorem claim (count stride : Nat) : Follows (claim? count stride) (Abi.claim count stride) := by
  intro budget room
  have limit : (2 : Nat) ^ 63 ≤ maxPosition := by decide
  have short : budget < mulUpTo count stride ↔ ¬ count * stride ≤ budget := by
    rw [mulUpTo, Nat.lt_min, Nat.not_le]
    exact and_iff_left (room.trans_le limit)
  rw [claim?, Abi.claim]
  simp only [short]
  by_cases enough : count * stride ≤ budget
  · have demand : mulUpTo count stride = count * stride :=
      Nat.min_eq_left (enough.trans (room.le.trans limit))
    rw [if_neg (not_not.mpr enough), if_pos enough, demand, sub?_of_le enough]
    refine ⟨rfl, fun done => ?_⟩
    cases done
    exact Nat.sub_le ..
  · rw [if_pos enough, if_neg enough]
    refine ⟨rfl, fun refused => ?_⟩
    cases refused

theorem elements {run : Nat → Run Token} {element : Nat → Decoder Token} {place : Nat → Option Nat}
    {first stride count : Nat} (each : ∀ offset, Follows (run offset) (element offset))
    (places : ∀ i < count, place i = some (advance first (i * stride))) :
    Follows (elements? run place count) (decodeElements element first stride count) := by
  refine bind (mapM fun i member => ?_) fun items => pure (Token.array items)
  exact check (places i (List.mem_range.mp member)) (each _)

end Follows

theorem follows_decodeStatic {kind : Kind} {dims : List Dim} {data : Bytes}
    (valid : Ty.Valid kind dims) (addressable : data.length < 2 ^ 63) (offset : Nat) :
    Follows (decodeStatic? kind data dims offset) (decodeStatic kind data dims offset) := by
  have inMemory : data.length < Word.positionBound := addressable.trans (by decide)
  induction dims generalizing offset with
  | nil =>
      rw [decodeStatic?, decodeStatic]
      cases kind.isDynamic with
      | false => exact .lift (scalar?_eq inMemory valid.1 offset)
      | true =>
          exact .check (readPosition?_eq inMemory offset kind.wordSize)
            (.lift (scalar?_eq inMemory valid.1 _))
  | cons dim inner ih =>
      have stride := stride?_eq valid.tail
      cases dim with
      | fixed length =>
          refine .check stride (.elements (ih valid.tail) fun i inside => ?_)
          -- The last element still lies within the static length of the whole.
          have room : i * Abi.stride kind inner < Word.positionBound := by
            have total := staticLength_le valid
            rw [staticLength_fixed] at total
            rw [stride_eq]
            exact ((Nat.mul_le_mul_right _ inside.le).trans total).trans_lt (by decide)
          rw [mul?_of_lt room]
          rfl
      | dynamic =>
          refine .check (readPosition?_eq inMemory offset kind.wordSize) ?_
          refine .check (readPosition?_eq inMemory _ kind.wordSize) ?_
          refine .check stride ((Follows.claim _ _).bind fun _ => ?_)
          refine .elements (ih valid.tail) fun i _ => congrArg some ?_
          rw [addUpTo, mulUpTo]
          change min (advance _ _ + _) _ = min (advance _ _ + _) _
          omega

theorem decode?_eq (ty : Ty) {data : Bytes} (addressable : data.length < 2 ^ 63) (offset : Nat) :
    decode? ty data offset = some (ty.decode data offset) := by
  have ran := (follows_decodeStatic ty.valid addressable offset data.length addressable).1
  rw [decode?, ran]
  rfl

/-! ## Types within a type -/

def Reaches : Ty → Ty → Prop :=
  Relation.ReflTransGen fun outer inner => outer.element? = some inner

theorem reaches_iff {ty inner : Ty} :
    Reaches ty inner ↔ inner.kind = ty.kind ∧ inner.dims <:+ ty.dims := by
  constructor
  · intro reaches
    induction reaches with
    | refl => exact ⟨rfl, List.suffix_rfl⟩
    | @tail outer inner _ step ih =>
        obtain ⟨kind, dims, valid⟩ := outer
        cases dims with
        | nil => cases step
        | cons dim inner =>
            cases step
            exact ⟨ih.1, (List.suffix_cons dim inner).trans ih.2⟩
  · obtain ⟨kind, dims, valid⟩ := ty
    obtain ⟨innerKind, innerDims, innerValid⟩ := inner
    rintro ⟨rfl, front, rfl⟩
    induction front with
    | nil => exact .refl
    | cons dim front ih => exact .head rfl (ih (Ty.Valid.tail valid))

theorem valid_of_suffix {kind : Kind} {dims inner : List Dim} (valid : Ty.Valid kind dims)
    (suffix : inner <:+ dims) : Ty.Valid kind inner := by
  obtain ⟨front, rfl⟩ := suffix
  induction front with
  | nil => exact valid
  | cons dim front ih => exact ih (Ty.Valid.tail valid)

theorem ofParts_of_valid {kind : Kind} {dims : List Dim} (valid : Ty.Valid kind dims) :
    Ty.ofParts kind dims = .ok ⟨kind, dims, valid⟩ := by
  rw [Ty.ofParts, if_neg (not_not.mpr valid.1), dif_pos valid]

theorem checkParts_eq_ok {kind : Kind} {dims : List Dim} :
    checkParts kind dims = .ok () ↔ Ty.Valid kind dims := by
  rw [checkParts_eq]
  constructor
  · intro accepted
    cases built : Ty.ofParts kind dims with
    | error cause => simp [built, Except.map] at accepted
    | ok ty =>
        unfold Ty.ofParts at built
        split at built
        · cases built
        · split at built
          case isTrue valid => exact valid
          case isFalse => cases built
  · intro valid
    rw [ofParts_of_valid valid]
    rfl

/-! ## Main statement -/

/-- Every type within the type is accepted and has its exact length, which is a whole number of
words, and no data makes decoding it a fault. -/
structure Fits (ty : Ty) : Prop where
  reaches_iff : ∀ inner, Reaches ty inner ↔ inner.kind = ty.kind ∧ inner.dims <:+ ty.dims
  accepted : ∀ inner, inner <:+ ty.dims →
    checkParts ty.kind inner = .ok () ∧
      ∃ valid, Ty.ofParts ty.kind inner = .ok ⟨ty.kind, inner, valid⟩
  length : ∀ inner, inner <:+ ty.dims →
    let length := ty.wordSize * (fixedLengths inner).prod
    staticLength? ty.kind inner = some length ∧ staticLength ty.kind inner = length ∧
      length ≤ 32 * 2 ^ 20 ∧
      stride? ty.kind inner = some length ∧ stride ty.kind inner = length
  decode : ∀ data offset, data.length < 2 ^ 63 →
    decode? ty data offset = some (ty.decode data offset)

theorem layout_fits :
    (∀ kind dims, checkParts kind dims = (Ty.ofParts kind dims).map fun _ => ()) ∧
    (∀ kind dims, checkParts kind dims = .ok () ↔ kind.Valid ∧ dims.length ≤ 16 ∧
      .fixed 0 ∉ dims ∧ (fixedLengths dims).prod ≤ 2 ^ 20) ∧
    ∀ ty, Fits ty := by
  refine ⟨checkParts_eq, fun kind dims => ?_, fun ty => ⟨fun _ => reaches_iff, ?_, ?_, ?_⟩⟩
  · rw [checkParts_eq_ok, Ty.Valid, slots_eq_prod, maxSlots, Nat.one_shiftLeft]
    rfl
  · intro inner suffix
    have valid := valid_of_suffix ty.valid suffix
    exact ⟨checkParts_eq_ok.mpr valid, valid, ofParts_of_valid valid⟩
  · intro inner suffix
    have valid := valid_of_suffix ty.valid suffix
    have length : staticLength ty.kind inner = ty.wordSize * (fixedLengths inner).prod :=
      congrArg _ (slots_eq_prod inner)
    simp only [← length]
    exact ⟨staticLength?_eq valid, trivial, staticLength_le valid,
      (stride?_eq valid).trans (congrArg some (stride_eq ..)), stride_eq ..⟩
  · intro data offset addressable
    exact decode?_eq ty addressable offset

def pairs : Ty :=
  ⟨.uint 128, [.dynamic, .fixed 2], by decide⟩

theorem layout_fits_largest_count :
    staticLength? (.uint 128) [.fixed 2] = some 32 ∧
    decode? pairs (Word.ofUnsigned 16 16 ++ Word.ofUnsigned maxPosition 16) 0 =
      some (.error (.lengthOutOfBounds maxPosition)) := by
  obtain ⟨-, -, fits⟩ := layout_fits
  have inner : [.fixed 2] <:+ pairs.dims := List.suffix_cons ..
  exact ⟨((fits pairs).length _ inner).1, (fits pairs).decode _ 0 (by decide)⟩

end Abi.Machine

end NodeProtocol
