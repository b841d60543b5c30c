import NodeProtocol.Abi.Arguments
import NodeProtocol.Proofs.Abi.Budget

/-!
# Vacant slots

A slot is vacant when all that stands in place reads as zero, which is what a head beyond the end
of the data looks like. A vacant static scalar is zero. A pointer of zero, though, is followed like
any other, to the front of the data, so that the first bytes decide what comes of a vacant slot
whose type has a tail.

* `Ty.zero`: the zero value of a type.
* `Gives`: whatever a decoder gives satisfies a condition; nothing is said of its refusals.
* `decode_vacant_iff`: a vacant slot reads as the zero value if and only if the front is blank.
* `decode_past_end`: so does a slot beyond the end, alone or in an argument list.
-/

namespace NodeProtocol.Abi

open Bytes (Holds)

def zeroToken (kind : Kind) : (dims : List Dim) → Token
  | [] => kind.zero
  | .fixed length :: inner => .array (List.replicate length (zeroToken kind inner))
  | .dynamic :: _ => .array []

def Ty.zero (ty : Ty) : Token :=
  zeroToken ty.kind ty.dims

def Tailed (kind : Kind) (dims : List Dim) : Prop :=
  kind.isDynamic ∨ .dynamic ∈ dims

def Vacant (kind : Kind) (data : Bytes) : (dims : List Dim) → (offset : Nat) → Prop
  | [], offset =>
    if kind.isDynamic then readPosition data offset kind.wordSize = 0
    else kind.decode data offset = .ok kind.zero
  | .fixed length :: inner, offset =>
    ∀ i < length, Vacant kind data inner (advance offset (i * stride kind inner))
  | .dynamic :: _, offset => readPosition data offset kind.wordSize = 0

/-- A count or a length at the front of the data finds nothing to read: there is none, or it is
zero, or it is the length of more data than there is. -/
def FrontBlank (kind : Kind) (data : Bytes) (dims : List Dim) : Prop :=
  if .dynamic ∈ dims then readPosition data 0 kind.wordSize = 0
  else (Kind.readData? data 0 kind.wordSize).getD [] = []

instance (kind : Kind) (data : Bytes) (dims : List Dim) :
    Decidable (FrontBlank kind data dims) := by
  unfold FrontBlank
  infer_instance

theorem Ty.hasTail_iff {ty : Ty} : ty.hasTail ↔ Tailed ty.kind ty.dims := by
  rw [hasTail, Bool.or_eq_true, decide_eq_true_iff, Tailed]

section

variable {kind : Kind} {data : Bytes} {length : Nat} {inner : List Dim}

theorem tailed_fixed : Tailed kind (.fixed length :: inner) ↔ Tailed kind inner := by
  simp [Tailed]

theorem frontBlank_fixed :
    FrontBlank kind data (.fixed length :: inner) ↔ FrontBlank kind data inner := by
  simp [FrontBlank]

end

theorem readPosition_of_holds {data : Bytes} {offset value width : Nat}
    (h : Holds data offset (Word.ofUnsigned value width)) (wide : Word.size ≤ width)
    (position : value < Word.positionBound) : readPosition data offset width = value := by
  rw [readPosition, Word.read?, Bytes.slice?_of_holds h (Word.length_ofUnsigned wide)]
  simp only
  rw [Word.toPosition?_ofUnsigned position wide, Option.getD_some]

theorem advance_of_lt {offset distance : Nat} (h : offset + distance < Word.positionBound) :
    advance offset distance = offset + distance := by
  rw [advance, maxPosition]
  omega

theorem advance_add (first step distance : Nat) :
    advance (first + step) distance = advance first (step + distance) := by
  rw [advance, advance, Nat.add_assoc]

namespace Decoder

variable {α β ι : Type}

def Gives (decoder : Decoder α) (condition : α → Prop) : Prop :=
  ∀ budget value rest, decoder budget = .ok (value, rest) → condition value

theorem gives_pure {value : α} {P : α → Prop} (h : P value) : Gives (pure value) P := by
  intro budget other rest run
  cases run
  exact h

theorem gives_lift {result : Except Error α} {P : α → Prop}
    (h : ∀ value, result = .ok value → P value) : Gives (liftM result) P := by
  intro budget value rest run
  cases outcome : result with
  | error cause =>
      rw [outcome] at run
      cases run
  | ok other =>
      rw [outcome] at run
      cases run
      exact h _ outcome

theorem Gives.bind {decoder : Decoder α} {next : α → Decoder β} {P : α → Prop} {Q : β → Prop}
    (first : Gives decoder P) (second : ∀ value, P value → Gives (next value) Q) :
    Gives (decoder >>= next) Q := by
  intro budget value rest run
  obtain ⟨⟨between, left⟩, before, after⟩ := bind_eq_ok.mp run
  exact second between (first _ _ _ before) _ _ _ after

theorem gives_mapM {items : List ι} {decoder : ι → Decoder α} {P : ι → α → Prop}
    (each : ∀ i ∈ items, Gives (decoder i) (P i)) :
    Gives (items.mapM decoder) fun values => List.Forall₂ P items values := by
  induction items with
  | nil => exact gives_pure .nil
  | cons i items ih =>
      rw [List.forall_mem_cons] at each
      rw [List.mapM_cons]
      refine each.1.bind fun value given => ?_
      exact (ih each.2).bind fun values rest => gives_pure (.cons given rest)

theorem gives_elements {element : (offset : Nat) → Decoder Token} {P : Nat → Token → Prop}
    {first stride count : Nat}
    (each : ∀ i < count, Gives (element (advance first (i * stride))) (P i)) :
    Gives (decodeElements element first stride count) fun token =>
      ∃ items, token = .array items ∧ List.Forall₂ P (List.range count) items :=
  (gives_mapM fun i member => each i (List.mem_range.mp member)).bind fun items given =>
    gives_pure ⟨items, rfl, given⟩

theorem gives_elements_ne {element : (offset : Nat) → Decoder Token} {token : Token}
    {items : List Token} {first stride count i : Nat} (inside : i < count)
    (never : Gives (element (advance first (i * stride))) (· ≠ token))
    (there : items[i]? = some token) :
    Gives (decodeElements element first stride count) (· ≠ .array items) := by
  have each : ∀ j < count, Gives (element (advance first (j * stride)))
      fun other => j = i → other ≠ token := by
    rintro j - budget other rest run rfl
    exact never _ _ _ run
  intro budget result rest run
  obtain ⟨others, rfl, given⟩ := gives_elements each _ _ _ run
  obtain ⟨other, found, differs⟩ := exists_getElem? given (List.getElem?_range inside)
  rintro same
  cases same
  exact differs rfl (Option.some.inj (found.symm.trans there))

theorem yields_mapM {items : List ι} {values : List α} {decoder : ι → Decoder α}
    (each : List.Forall₂ (fun i value => Yields (decoder i) value 0) items values) :
    Yields (items.mapM decoder) values 0 := by
  induction each with
  | nil => exact yields_pure []
  | cons first _ ih =>
      rw [List.mapM_cons]
      refine Yields.bind (m := 0) (n := 0) first ?_
      exact Yields.bind (m := 0) (n := 0) ih (yields_pure _)

theorem yields_elements_replicate {element : (offset : Nat) → Decoder Token} {token : Token}
    {first stride count : Nat}
    (each : ∀ i < count, Yields (element (advance first (i * stride))) token 0) :
    Yields (decodeElements element first stride count) (.array (List.replicate count token)) 0 := by
  refine Yields.bind (m := 0) (n := 0) (yields_mapM ?_) (yields_pure _)
  refine List.forall₂_iff_get.mpr ⟨by simp, fun i here there => ?_⟩
  rw [List.length_range] at here
  simp only [List.get_eq_getElem, List.getElem_range, List.getElem_replicate]
  exact each i here

theorem Yields.run'_eq {decoder : Decoder α} {value : α} {cost budget : Nat}
    (h : Yields decoder value cost) (enough : cost ≤ budget) :
    decoder.run' budget = .ok value := by
  change Prod.fst <$> decoder budget = _
  rw [h budget enough]
  rfl

theorem Gives.run'_imp {decoder : Decoder α} {P : α → Prop} {value : α} {budget : Nat}
    (h : Gives decoder P) (run : decoder.run' budget = .ok value) : P value := by
  change Prod.fst <$> decoder budget = _ at run
  cases outcome : decoder budget with
  | error cause =>
      rw [outcome] at run
      cases run
  | ok result =>
      rw [outcome] at run
      cases run
      exact h _ _ _ outcome

end Decoder

open Decoder (Yields Gives)

section

variable {kind : Kind} {data : Bytes} {dims : List Dim} {offset : Nat}

theorem Kind.decode_eq_zero_iff (dynamic : kind.isDynamic) :
    kind.decode data offset = .ok kind.zero ↔
      (readData? data offset kind.wordSize).getD [] = [] := by
  cases kind with
  | bytes => rw [decode, zero, Except.ok.injEq, Token.bytes.injEq]
  | string =>
      rw [decode, textToken]
      constructor
      · intro h
        split at h
        case h_1 text read =>
          cases h
          exact (Text.ofUtf8?_eq_some_iff.mp read).symm
        case h_2 => cases h
      · intro h
        rw [h]
        rfl
  | _ => cases dynamic

theorem yields_vacant (vacant : Vacant kind data dims offset)
    (front : Tailed kind dims → FrontBlank kind data dims) :
    Yields (decodeStatic kind data dims offset) (zeroToken kind dims) 0 := by
  induction dims generalizing offset with
  | nil =>
      rw [decodeStatic]
      apply Decoder.yields_lift
      rw [Vacant] at vacant
      cases dynamic : kind.isDynamic with
      | false =>
          rw [if_neg (by simp [dynamic])] at vacant
          rw [if_neg Bool.false_ne_true]
          exact vacant
      | true =>
          rw [if_pos dynamic] at vacant
          rw [if_pos rfl, vacant]
          exact (Kind.decode_eq_zero_iff dynamic).mpr (front (.inl dynamic))
  | cons dim inner ih =>
      cases dim with
      | fixed length =>
          refine Decoder.yields_elements_replicate fun i inside => ih (vacant i inside) ?_
          exact fun tailed => frontBlank_fixed.mp (front (tailed_fixed.mpr tailed))
      | dynamic =>
          have blank := front (.inr List.mem_cons_self)
          rw [FrontBlank, if_pos List.mem_cons_self] at blank
          have pointer : readPosition data offset kind.wordSize = 0 := vacant
          have claimed := Decoder.yields_claim 0 (stride kind inner)
          rw [Nat.zero_mul] at claimed
          rw [decodeStatic, pointer, blank]
          exact Yields.bind (m := 0) (n := 0) claimed (Decoder.yields_pure _)

theorem gives_vacant (vacant : Vacant kind data dims offset) (tailed : Tailed kind dims)
    (nonempty : Dim.fixed 0 ∉ dims) (front : ¬ FrontBlank kind data dims) :
    Gives (decodeStatic kind data dims offset) (· ≠ zeroToken kind dims) := by
  induction dims generalizing offset with
  | nil =>
      have dynamic : kind.isDynamic := by simpa [Tailed] using tailed
      rw [Vacant, if_pos dynamic] at vacant
      rw [decodeStatic, if_pos dynamic, vacant]
      apply Decoder.gives_lift
      rintro token decoded rfl
      exact front ((Kind.decode_eq_zero_iff dynamic).mp decoded)
  | cons dim inner ih =>
      rw [List.mem_cons, not_or] at nonempty
      cases dim with
      | fixed length =>
          have inside : 0 < length :=
            Nat.pos_of_ne_zero fun zero => nonempty.1 (congrArg Dim.fixed zero.symm)
          have first := ih (vacant 0 inside) (tailed_fixed.mp tailed) nonempty.2
            (mt frontBlank_fixed.mpr front)
          refine Decoder.gives_elements_ne inside first ?_
          rw [List.getElem?_replicate, if_pos inside]
      | dynamic =>
          rw [FrontBlank, if_pos List.mem_cons_self] at front
          have pointer : readPosition data offset kind.wordSize = 0 := vacant
          rw [decodeStatic, pointer]
          refine Decoder.Gives.bind (P := fun _ => True) (fun _ _ _ _ => trivial) fun _ _ => ?_
          intro budget token rest run
          obtain ⟨items, rfl, given⟩ := Decoder.gives_elements (P := fun _ _ => True)
            (fun _ _ _ _ _ _ => trivial) _ _ _ run
          intro same
          cases same
          have empty := given.length_eq
          rw [List.length_range] at empty
          exact front empty

end

theorem decode_vacant_iff {ty : Ty} {data : Bytes} {offset : Nat} (tailed : ty.hasTail)
    (vacant : Vacant ty.kind data ty.dims offset) :
    ty.decode data offset = .ok ty.zero ↔ FrontBlank ty.kind data ty.dims := by
  constructor
  · intro decoded
    by_contra front
    have never := gives_vacant vacant (Ty.hasTail_iff.mp tailed) ty.valid.2.2.1 front
    exact never.run'_imp decoded rfl
  · intro front
    exact (yields_vacant vacant fun _ => front).run'_eq (Nat.zero_le _)

section

variable {kind : Kind} {data : Bytes} {dims : List Dim} {offset : Nat}

theorem read?_past_end (past : data.length ≤ offset) :
    Word.read? data offset kind.wordSize = none := by
  have room := kind.wordSize_pos
  exact if_neg (by omega)

theorem readPosition_past_end (past : data.length ≤ offset) :
    readPosition data offset kind.wordSize = 0 := by
  rw [readPosition, read?_past_end past]

theorem vacant_past_end (addressable : data.length < Word.positionBound)
    (past : data.length ≤ offset) : Vacant kind data dims offset := by
  induction dims generalizing offset with
  | nil =>
      rw [Vacant]
      split
      case isTrue => exact readPosition_past_end past
      case isFalse static =>
        rw [Kind.decode_static data offset (by simpa using static), read?_past_end past]
        rfl
  | cons dim inner ih =>
      cases dim with
      | fixed length =>
          intro i _
          refine ih ?_
          rw [advance, maxPosition]
          omega
      | dynamic => exact readPosition_past_end past

end

/-- A head beyond the end of the data is read as the zero value if and only if the front of the
data is blank. Otherwise whatever stands there is taken for its content. -/
theorem decode_past_end {data : Bytes} (addressable : data.length < Word.positionBound) :
    (∀ (ty : Ty) (offset : Nat), ty.hasTail → data.length ≤ offset →
      (ty.decode data offset = .ok ty.zero ↔ FrontBlank ty.kind data ty.dims)) ∧
    ∀ (types : List Ty) (tokens : List Token), decodeArguments types data = .ok tokens →
      ∀ (i : Nat) (ty : Ty) (offset : Nat), types[i]? = some ty →
        (offsetsFrom 0 (types.map Ty.staticLength))[i]? = some offset → ty.hasTail →
        data.length ≤ offset →
        (tokens[i]? = some ty.zero ↔ FrontBlank ty.kind data ty.dims) := by
  have alone : ∀ (ty : Ty) (offset : Nat), ty.hasTail → data.length ≤ offset →
      (ty.decode data offset = .ok ty.zero ↔ FrontBlank ty.kind data ty.dims) :=
    fun ty offset tailed past => decode_vacant_iff tailed (vacant_past_end addressable past)
  refine ⟨alone, ?_⟩
  intro types tokens decoded i ty offset here at_offset tailed past
  have pair : (types.zip (offsetsFrom 0 (types.map Ty.staticLength)))[i]? = some (ty, offset) := by
    rw [List.getElem?_zip_eq_some]
    exact ⟨here, at_offset⟩
  obtain ⟨token, found, read⟩ := exists_getElem? (mapM_eq_ok.mp decoded) pair
  have value : ty.decode data offset = .ok token := read
  rw [found, ← alone ty offset tailed past, value, Option.some.injEq, Except.ok.injEq]

theorem valid_text : Ty.Valid .string [] := by
  decide

def textType : Ty :=
  ⟨.string, [], valid_text⟩

def twoNumbers : Bytes :=
  Word.ofUnsigned 1 Word.size ++ Word.ofUnsigned (0x61 <<< 120) Word.size

theorem decode_past_end_two_numbers :
    textType.decode twoNumbers 32 ≠ .ok textType.zero ∧
    textType.decode (twoNumbers.drop 16) 16 = .ok textType.zero := by
  have front : ¬ FrontBlank .string twoNumbers [] := by decide +kernel
  have blank : FrontBlank .string (twoNumbers.drop 16) [] := by decide +kernel
  constructor
  · exact mt ((decode_past_end (by decide +kernel)).1 textType 32 rfl (by decide +kernel)).mp front
  · exact ((decode_past_end (by decide +kernel)).1 textType 16 rfl (by decide +kernel)).mpr blank

theorem decodeArguments_takes_numbers_for_text :
    decodeArguments [⟨.uint 128, [], by decide⟩, ⟨.uint 128, [], by decide⟩, textType] twoNumbers =
      .ok [.uint 1, .uint (0x61 <<< 120), .string "a"] ∧
    twoNumbers.length ≤ 32 ∧ textType.hasTail ∧
    textType.decode twoNumbers 32 = .ok (.string "a") ∧ textType.zero = .string "" :=
  ⟨rfl, by decide +kernel, rfl, rfl, rfl⟩

end NodeProtocol.Abi
