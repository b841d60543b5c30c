import NodeProtocol.Abi.Arguments
import NodeProtocol.Proofs.Abi.Gaps

/-!
# Round trips

* `Reads`: where the two parts of a payload stand, its token is read, at the cost that the payload
  claims. `reads_ofPayload` goes along the dimensions.
* `toToken_wellFormed`: a payload gives a token, and that token builds the payload again.
* `decodeArguments_encodeArguments`: an argument list is read back, whatever follows it.
-/

namespace NodeProtocol.Abi

open Bytes (Holds)
open Decoder (Yields)

theorem mapM_elements_yields {α : Type} {part : α → (start : Nat) → Part}
    {element : (offset : Nat) → Decoder Token} {cost : α → Nat} {data : Bytes}
    {items : List α} {tokens : List Token} {width first start : Nat}
    (each : List.Forall₂ (fun item token => ∀ offset start,
      Holds data offset (part item start).head → Holds data start (part item start).content →
        Yields (element offset) token (cost item)) items tokens)
    (widths : ∀ item ∈ items, ∀ start, (part item start).head.length = width)
    (addressable : data.length < Word.positionBound)
    (heads : Holds data first (Part.sequence part items start).head)
    (contents : Holds data start (Part.sequence part items start).content) :
    Yields ((List.range items.length).mapM fun i => element (advance first (i * width))) tokens
      (items.foldr (cost · + ·) 0) := by
  induction each generalizing first start with
  | nil => exact Decoder.yields_pure []
  | @cons item token items tokens reads _ ih =>
      rw [List.forall_mem_cons] at widths
      obtain ⟨head, heads⟩ := Bytes.holds_append heads
      obtain ⟨content, contents⟩ := Bytes.holds_append contents
      rw [widths.1] at heads
      have inside := head.end_le
      have here : advance first (0 * width) = first := by
        rw [Nat.zero_mul]
        exact advance_of_lt (by omega)
      have shifted (i : Nat) : advance first ((i + 1) * width) = advance (first + width) (i * width) := by
        rw [advance_add, Nat.succ_mul, Nat.add_comm]
      rw [List.length_cons, List.range_succ_eq_map, List.mapM_cons, List.mapM_map]
      simp only [here, Function.comp_def, Nat.succ_eq_add_one, shifted]
      apply Yields.bind (reads first start head content)
      rw [← Nat.add_zero (List.foldr _ _ _)]
      exact Yields.bind (ih widths.2 heads contents) (Decoder.yields_pure _)

theorem holds_fill {data : Bytes} {part : Part} {offset length : Nat}
    (h : Holds data offset (part.fill length).head) : Holds data offset part.head :=
  (Bytes.holds_append h).1

/-- Wherever the two parts of a payload stand in the data, its token is read. -/
def Reads (data : Bytes) (kind : Kind) (dims : List Dim) (payload : Payload dims)
    (token : Token) : Prop :=
  ∀ offset start, Holds data offset (Part.ofPayload kind dims payload start).head →
    Holds data start (Part.ofPayload kind dims payload start).content →
    Yields (decodeStatic kind data dims offset) token (payload.claims kind dims)

theorem reads_scalar {kind : Kind} {payload : Payload []} {token : Token} {data : Bytes}
    (valid : kind.Valid) (wellFormed : payload.WellFormed kind [])
    (addressable : data.length < Word.positionBound) (h : payload.toToken kind [] = .ok token) :
    Reads data kind [] payload token := by
  intro offset start head content
  rw [decodeStatic]
  apply Decoder.yields_lift
  have start_lt : start < Word.positionBound := by
    have := content.end_le
    omega
  rw [Part.ofPayload] at head content
  cases dynamic : kind.isDynamic with
  | true =>
      rw [if_pos dynamic] at head content
      rw [if_pos rfl, readPosition_of_holds head kind.size_le_wordSize start_lt,
        Kind.decode_of_holds valid wellFormed content addressable]
      exact h
  | false =>
      rw [if_neg (by simp [dynamic])] at head
      rw [if_neg Bool.false_ne_true, Kind.decode_of_holds valid wellFormed head addressable]
      exact h

section Array

variable {kind : Kind} {length : Nat} {inner : List Dim} {tokens : List Token} {data : Bytes}
  (addressable : data.length < Word.positionBound)

include addressable

omit addressable in
theorem zeros_of_fixed {payload : Payload (.fixed length :: inner)} {offset start : Nat}
    (widths : ∀ item ∈ payload.items, ∀ start,
      (Part.ofPayload kind inner item start).head.length = staticLength kind inner)
    (room : payload.items.length ≤ length)
    (head : Holds data offset (Part.ofPayload kind (.fixed length :: inner) payload start).head) :
    Holds data (offset + payload.items.length * staticLength kind inner)
      (List.replicate ((length - payload.items.length) * staticLength kind inner) 0) := by
  rw [Part.ofPayload_fixed room] at head
  have places := (Bytes.holds_append head).2
  rwa [Part.length_head_sequence widths, staticLength_fixed, ← Nat.sub_mul] at places

theorem reads_fixed {payload : Payload (.fixed length :: inner)} {absent : Token}
    (each : List.Forall₂ (Reads data kind inner) payload.items tokens)
    (widths : ∀ item ∈ payload.items, ∀ start,
      (Part.ofPayload kind inner item start).head.length = staticLength kind inner)
    (room : payload.items.length ≤ length)
    (zeros : payload.items.length < length → ∀ offset,
      Holds data offset (List.replicate (staticLength kind inner) 0) →
        Yields (decodeStatic kind data inner offset) absent 0) :
    Reads data kind (.fixed length :: inner) payload
      (.array (tokens ++ List.replicate (length - payload.items.length) absent)) := by
  intro offset start head content
  have places := zeros_of_fixed widths room head
  rw [Part.ofPayload_fixed room] at head content
  have elements := mapM_elements_yields each widths addressable (holds_fill head) content
  obtain ⟨short, length_eq⟩ := Nat.exists_eq_add_of_le room
  rw [length_eq, Nat.add_sub_cancel_left] at places
  have rest : Yields (((List.range short).map (payload.items.length + ·)).mapM fun i =>
      decodeStatic kind data inner (advance offset (i * staticLength kind inner)))
      (List.replicate short absent) 0 := by
    rw [List.mapM_map]
    apply Decoder.yields_mapM
    refine List.forall₂_iff_get.mpr ⟨by simp, fun i here _ => ?_⟩
    rw [List.length_range] at here
    have fits : i * staticLength kind inner + staticLength kind inner ≤
        short * staticLength kind inner := by
      rw [← Nat.succ_mul]
      exact Nat.mul_le_mul_right _ here
    have place := Bytes.holds_replicate places fits
    have inside := place.end_le
    simp only [List.get_eq_getElem, List.getElem_range, List.getElem_replicate, Function.comp_apply]
    rw [Nat.add_mul, advance_of_lt (by omega), ← Nat.add_assoc]
    exact zeros (by omega) _ place
  rw [decodeStatic, decodeElements, stride_eq, length_eq, List.range_add, List.mapM_append,
    Nat.add_sub_cancel_left]
  refine Yields.bind (n := 0) (Yields.bind (n := 0) elements ?_) (Decoder.yields_pure _)
  exact Yields.bind (m := 0) (n := 0) rest (Decoder.yields_pure _)

theorem elements_of_dynamic {payload : Payload (.dynamic :: inner)} {offset start : Nat}
    (valid : Ty.Valid kind inner)
    (widths : ∀ item ∈ payload.items, ∀ start,
      (Part.ofPayload kind inner item start).head.length = staticLength kind inner)
    (head : Holds data offset (Part.ofPayload kind (.dynamic :: inner) payload start).head)
    (content : Holds data start (Part.ofPayload kind (.dynamic :: inner) payload start).content) :
    readPosition data offset kind.wordSize = start ∧
    readPosition data start kind.wordSize = payload.items.length ∧
    advance start kind.wordSize = start + kind.wordSize ∧
    ∃ next, Holds data (start + kind.wordSize)
        (Part.sequence (Part.ofPayload kind inner) payload.items next).head ∧
      Holds data next (Part.sequence (Part.ofPayload kind inner) payload.items next).content := by
  rw [Part.ofPayload_dynamic] at head content
  have start_lt : start < Word.positionBound := by
    have := content.end_le
    omega
  have pointerWord := holds_fill head
  change Holds data offset (Word.ofUnsigned start kind.wordSize) at pointerWord
  change Holds data start (Part.counted ..) at content
  rw [Part.counted, Part.bytes] at content
  obtain ⟨countWord, parts⟩ := Bytes.holds_append content
  obtain ⟨heads, contents⟩ := Bytes.holds_append parts
  rw [Word.length_ofUnsigned kind.size_le_wordSize] at heads contents
  rw [Part.length_head_sequence widths] at contents
  have inside := heads.end_le
  rw [Part.length_head_sequence widths] at inside
  -- Every element takes some of the data, so their number is a position as well.
  have stride_pos : 0 < staticLength kind inner :=
    kind.wordSize_pos.trans_le (wordSize_le_staticLength kind valid.2.2.1)
  have count_lt : payload.items.length < Word.positionBound := by
    have := Nat.le_mul_of_pos_right payload.items.length stride_pos
    omega
  exact ⟨readPosition_of_holds pointerWord kind.size_le_wordSize start_lt,
    readPosition_of_holds countWord kind.size_le_wordSize count_lt, advance_of_lt (by omega), _,
    heads, contents⟩

theorem reads_dynamic {payload : Payload (.dynamic :: inner)} (valid : Ty.Valid kind inner)
    (each : List.Forall₂ (Reads data kind inner) payload.items tokens)
    (widths : ∀ item ∈ payload.items, ∀ start,
      (Part.ofPayload kind inner item start).head.length = staticLength kind inner) :
    Reads data kind (.dynamic :: inner) payload (.array tokens) := by
  intro offset start head content
  obtain ⟨pointer, count, first, next, heads, contents⟩ :=
    elements_of_dynamic addressable valid widths head content
  have elements := mapM_elements_yields each widths addressable heads contents
  rw [← stride_eq] at elements
  rw [decodeStatic, pointer, count, first, Payload.claims, ← stride_eq]
  apply (Decoder.yields_claim _ _).bind
  rw [← Nat.add_zero (List.foldr _ _ _)]
  exact elements.bind (Decoder.yields_pure _)

end Array

/-- A missing item with a tail is read as the zero value only from a front that is zero. -/
theorem reads_ofPayload {kind : Kind} {dims : List Dim} {payload : Payload dims} {token : Token}
    {data : Bytes} (valid : Ty.Valid kind dims) (wellFormed : payload.WellFormed kind dims)
    (front : payload.HasGap kind dims → readPosition data 0 kind.wordSize = 0)
    (addressable : data.length < Word.positionBound) (h : payload.toToken kind dims = .ok token) :
    Reads data kind dims payload (token.fill kind dims) := by
  -- The induction keeps the data whole, since pointers are positions in all of it.
  induction dims generalizing token with
  | nil =>
      rw [Token.fill_nil]
      exact reads_scalar valid.1 wellFormed addressable h
  | cons dim inner ih =>
      obtain ⟨tokens, tokensOk, h⟩ := bind_eq_ok.mp h
      cases h
      have pairs := mapM_eq_ok.mp tokensOk
      have each : List.Forall₂ (Reads data kind inner) payload.items
          (tokens.map (Token.fill kind inner)) := by
        rw [List.forall₂_map_right_iff]
        have members := (List.forall₂_and_left _ _).mpr
          ⟨fun item (member : item ∈ payload.items) => member, pairs⟩
        refine members.imp ?_
        rintro item token ⟨member, h⟩
        exact ih valid.tail (wellFormed.2 item member) (fun gap => front (.inr ⟨item, member, gap⟩))
          h
      have widths : ∀ item ∈ payload.items, ∀ start,
          (Part.ofPayload kind inner item start).head.length = staticLength kind inner :=
        fun item member => Part.length_head_ofPayload valid.tail (wellFormed.2 item member)
      rw [Token.fill, ← pairs.length_eq]
      cases dim with
      | fixed length =>
          refine reads_fixed addressable each widths wellFormed.1 ?_
          intro short offset zeros
          refine yields_vacant (vacant_of_zeros valid.tail addressable zeros) fun tailed => ?_
          exact frontBlank_of_zero (front (.inl ⟨Nat.sub_pos_of_lt short, tailed⟩))
      | dynamic =>
          rw [Dim.missing, List.replicate_zero, List.append_nil]
          exact reads_dynamic addressable valid.tail each widths

theorem checkUniform_of_variant {tokens : List Token} {variant : Token.Variant}
    (h : ∀ token ∈ tokens, token.variant = variant) : checkUniform tokens = .ok () := by
  cases tokens with
  | nil => rfl
  | cons first rest =>
      rw [List.forall_mem_cons] at h
      have same : rest.find? (·.variant ≠ first.variant) = none := by
        rw [List.find?_eq_none]
        intro token member
        simp [h.1, h.2 token member]
      rw [checkUniform, same]

def tokenVariant (kind : Kind) : (dims : List Dim) → Token.Variant
  | [] => kind.variant
  | _ :: _ => .array

theorem ofToken_scalar {kind : Kind} {token : Token} (h : token.variant = kind.variant) :
    Payload.ofToken kind [] token = kind.leafOfToken token := by
  cases token with
  | array items => cases kind <;> cases h
  | _ => rfl

theorem toToken_wellFormed {kind : Kind} {dims : List Dim} {payload : Payload dims}
    (valid : kind.Valid) (lossless : kind.isFixedPoint = false)
    (h : payload.WellFormed kind dims) :
    ∃ token, payload.toToken kind dims = .ok token ∧ token.variant = tokenVariant kind dims ∧
      Payload.ofToken kind dims token = .ok payload := by
  induction dims with
  | nil =>
      obtain ⟨token, given, variant, built⟩ := Kind.tokenOfLeaf_isLeaf h valid lossless
      exact ⟨token, given, variant, (ofToken_scalar variant).trans built⟩
  | cons dim inner ih =>
      obtain ⟨tokens, pairs⟩ :=
        exists_forall₂ fun item (member : item ∈ payload.items) => ih (h.2 item member)
      have given := mapM_eq_ok.mpr (pairs.imp fun _ _ h => h.1)
      have built := mapM_eq_ok.mpr (List.Forall₂.flip (pairs.imp fun _ _ h => h.2.2))
      have variants : ∀ token ∈ tokens, token.variant = tokenVariant kind inner := by
        intro token member
        obtain ⟨item, -, -, variant, -⟩ := exists_of_mem_right pairs member
        exact variant
      refine ⟨.array tokens, bind_eq_ok.mpr ⟨tokens, given, rfl⟩, rfl, ?_⟩
      refine bind_eq_ok.mpr ⟨(), checkUniform_of_variant variants, ?_⟩
      refine bind_eq_ok.mpr ⟨(), Dim.checkRoom_eq_ok.mpr ?_, built⟩
      rw [← pairs.length_eq]
      exact h.1

namespace Value

def WellFormed (value : Value) : Prop :=
  value.payload.WellFormed value.type.kind value.type.dims

theorem wellFormed_of_ofToken {ty : Ty} {token : Token} {value : Value}
    (h : ofToken ty token = .ok value) : value.WellFormed := by
  obtain ⟨payload, built, h⟩ := bind_eq_ok.mp h
  cases h
  exact Payload.wellFormed_of_ofToken built

def Stands (data : Bytes) (value : Value) (offset : Nat) : Prop :=
  ∃ start, Holds data offset (value.part start).head ∧ Holds data start (value.part start).content

theorem holds_encode {value : Value} (wellFormed : value.WellFormed) :
    Holds value.encode 0 (value.part value.staticLength).head ∧
      Holds value.encode value.staticLength (value.part value.staticLength).content := by
  have whole : Holds value.encode 0
      ((value.part value.staticLength).head ++ (value.part value.staticLength).content) :=
    ⟨[], [], (List.append_nil _).symm, rfl⟩
  obtain ⟨head, content⟩ := Bytes.holds_append whole
  have length : (value.part value.staticLength).head.length = value.staticLength :=
    Part.length_head_ofPayload value.type.valid wellFormed value.staticLength
  rw [length, Nat.zero_add] at content
  exact ⟨head, content⟩

theorem decode_fill_of_stands {value : Value} {token : Token} {data : Bytes} {offset : Nat}
    (wellFormed : value.WellFormed)
    (front : value.payload.HasGap value.type.kind value.type.dims →
      readPosition data 0 value.type.wordSize = 0)
    (addressable : data.length < Word.positionBound) (stands : Stands data value offset)
    (h : value.toToken = .ok token) :
    value.type.decode data offset = .ok (token.fill value.type.kind value.type.dims) := by
  obtain ⟨start, head, content⟩ := stands
  have reads := reads_ofPayload value.type.valid wellFormed front addressable h _ _ head content
  refine reads.run'_eq ?_
  have claims := Part.claims_le_content value.type.valid wellFormed start
  have inside := content.end_le
  rw [part] at inside
  omega

theorem decode_of_stands {value : Value} {token : Token} {data : Bytes} {offset : Nat}
    (wellFormed : value.WellFormed) (full : value.payload.Full value.type.dims)
    (addressable : data.length < Word.positionBound) (stands : Stands data value offset)
    (h : value.toToken = .ok token) : value.type.decode data offset = .ok token := by
  have read := decode_fill_of_stands wellFormed (absurd · full.not_hasGap) addressable stands h
  rwa [full.fill_eq h] at read

theorem ofToken_of_toToken {value : Value} {token : Token} (wellFormed : value.WellFormed)
    (lossless : value.type.kind.isFixedPoint = false) (h : value.toToken = .ok token) :
    ofToken value.type token = .ok value := by
  obtain ⟨found, given, -, built⟩ := toToken_wellFormed value.type.valid.1 lossless wellFormed
  cases given.symm.trans h
  exact bind_eq_ok.mpr ⟨value.payload, built, rfl⟩

theorem stands_of_sequence {data : Bytes} {values : List Value} {offset start : Nat}
    (wellFormed : ∀ value ∈ values, value.WellFormed)
    (head : Holds data offset (Part.sequence part values start).head)
    (content : Holds data start (Part.sequence part values start).content) :
    List.Forall₂ (Stands data) values (offsetsFrom offset (values.map staticLength)) := by
  induction values generalizing offset start with
  | nil => exact .nil
  | cons value values ih =>
      rw [List.forall_mem_cons] at wellFormed
      obtain ⟨head, heads⟩ := Bytes.holds_append head
      obtain ⟨content, contents⟩ := Bytes.holds_append content
      have length : (value.part start).head.length = value.staticLength :=
        Part.length_head_ofPayload value.type.valid wellFormed.1 start
      rw [length] at heads
      exact .cons ⟨start, head, content⟩ (ih wellFormed.2 heads contents)

end Value

theorem length_head_arguments {values : List Value}
    (wellFormed : ∀ value ∈ values, value.WellFormed) (start : Nat) :
    (Part.sequence Value.part values start).head.length = headLength values := by
  induction values generalizing start with
  | nil => rfl
  | cons value values ih =>
      rw [List.forall_mem_cons] at wellFormed
      have length : (value.part start).head.length = value.staticLength :=
        Part.length_head_ofPayload value.type.valid wellFormed.1 start
      rw [Part.sequence, List.length_append, length, ih wellFormed.2, headLength]

theorem stands_encodeArguments {values : List Value} (wellFormed : ∀ value ∈ values, value.WellFormed)
    (trailing : Bytes) :
    List.Forall₂ (Value.Stands (encodeArguments values ++ trailing)) values
      (headOffsets values) := by
  have whole := Bytes.holds_start (encodeArguments values) trailing
  obtain ⟨head, content⟩ := Bytes.holds_append whole
  rw [length_head_arguments wellFormed, Nat.zero_add] at content
  exact Value.stands_of_sequence wellFormed head content

theorem mapM_decode {data : Bytes} {values : List Value} {offsets : List Nat} {tokens : List Token}
    (reads : List.Forall₂ (fun value offset => ∀ token, value.toToken = .ok token →
      value.type.decode data offset = .ok token) values offsets)
    (given : values.mapM Value.toToken = .ok tokens) :
    ((values.map Value.type).zip offsets).mapM (fun (ty, offset) => ty.decode data offset) =
      .ok tokens := by
  rw [mapM_eq_ok] at given ⊢
  induction reads generalizing tokens with
  | nil => cases given; exact .nil
  | cons reads _ ih =>
      cases given with
      | cons first rest => exact .cons (reads _ first) (ih rest)

/-- An argument list is read back as the tokens of its values, and each value from its own head.
Positions are 64-bit numbers, so the data has fewer than `Word.positionBound` bytes. -/
theorem decodeArguments_encodeArguments {values : List Value} {trailing : Bytes}
    (built : ∀ value ∈ values, ∃ token, Value.ofToken value.type token = .ok value)
    (lossless : ∀ value ∈ values, value.type.kind.isFixedPoint = false)
    (full : ∀ value ∈ values, value.payload.Full value.type.dims)
    (addressable : (encodeArguments values ++ trailing).length < Word.positionBound) :
    ∃ tokens, values.mapM Value.toToken = .ok tokens ∧
      decodeArguments (values.map Value.type) (encodeArguments values ++ trailing) = .ok tokens ∧
      ∀ (i : Nat) (value : Value), values[i]? = some value →
        ∃ offset, (headOffsets values)[i]? = some offset ∧
          Value.decode value.type (encodeArguments values ++ trailing) offset = .ok value := by
  have wellFormed : ∀ value ∈ values, value.WellFormed := by
    intro value member
    obtain ⟨token, h⟩ := built value member
    exact Value.wellFormed_of_ofToken h
  have total : ∀ value ∈ values, ∃ token, value.toToken = .ok token := by
    intro value member
    obtain ⟨token, given, -⟩ := toToken_wellFormed value.type.valid.1 (lossless value member)
      (wellFormed value member)
    exact ⟨token, given⟩
  obtain ⟨tokens, pairs⟩ := exists_forall₂ total
  have stands := stands_encodeArguments wellFormed trailing
  have reads : List.Forall₂ (fun value offset => ∀ token, value.toToken = .ok token →
      value.type.decode (encodeArguments values ++ trailing) offset = .ok token)
      values (headOffsets values) := by
    have members := (List.forall₂_and_left _ _).mpr
      ⟨fun value (member : value ∈ values) => member, stands⟩
    refine members.imp ?_
    rintro value offset ⟨member, stands⟩ token given
    exact value.decode_of_stands (wellFormed value member) (full value member) addressable stands
      given
  refine ⟨tokens, mapM_eq_ok.mpr pairs, ?_, ?_⟩
  · rw [decodeArguments, List.map_map]
    exact mapM_decode reads (mapM_eq_ok.mpr pairs)
  · intro i value found
    have member := List.mem_of_getElem? found
    obtain ⟨offset, at_offset, read⟩ := exists_getElem? reads found
    obtain ⟨token, given⟩ := total value member
    have rebuilt := value.ofToken_of_toToken (wellFormed value member) (lossless value member) given
    exact ⟨offset, at_offset, bind_eq_ok.mpr ⟨token, read token given, rebuilt⟩⟩

def sampleArguments : List Value :=
  let pairs : List (List Bytes) := [[[0, 1], [0, 2]], [[0, 3], [0, 4]]]
  let text : Bytes := [116, 97, 105, 108]
  [⟨⟨.uint 16, [.dynamic, .fixed 2], by decide⟩, pairs⟩, ⟨⟨.string, [], by decide⟩, text⟩]

def sampleTokens : List Token :=
  [.array [.array [.uint 1, .uint 2], .array [.uint 3, .uint 4]], .string "tail"]

theorem decodeArguments_sampleArguments :
    decodeArguments (sampleArguments.map Value.type) (encodeArguments sampleArguments ++ [7]) =
      .ok sampleTokens := by
  have built : ∀ value ∈ sampleArguments, ∃ token, Value.ofToken value.type token = .ok value := by
    simp only [sampleArguments, List.forall_mem_cons, List.not_mem_nil, false_implies, implies_true,
      and_true]
    exact ⟨⟨.array [.array [.uint 1, .uint 2], .array [.uint 3, .uint 4]], rfl⟩,
      ⟨.string "tail", rfl⟩⟩
  have lossless : ∀ value ∈ sampleArguments, value.type.kind.isFixedPoint = false := by decide
  have full : ∀ value ∈ sampleArguments, value.payload.Full value.type.dims := by decide
  have addressable : (encodeArguments sampleArguments ++ [7]).length < Word.positionBound := by
    decide +kernel
  have tokens : sampleArguments.mapM Value.toToken = .ok sampleTokens := rfl
  obtain ⟨_, given, read, -⟩ := decodeArguments_encodeArguments built lossless full addressable
  cases tokens.symm.trans given
  exact read

end NodeProtocol.Abi
