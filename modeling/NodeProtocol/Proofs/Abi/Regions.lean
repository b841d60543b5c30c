import Mathlib.Algebra.BigOperators.Group.List.Basic
import NodeProtocol.Proofs.Abi.Buffer

/-!
# Where the contents of an encoding lie

* `LaidOut`: a payload stands at an offset, every pointer of it leads to a region with the content
  of its node, and these are the regions of all its indirect nodes, in order.
* `Tiles`: neighbouring regions without a gap. The contents of an encoding tile its tail
  (`laidOut_ofPayload`), so that none of them share a byte.
* `encodeArguments_layout`: writing an argument list never fails, every call keeps to its slot, and
  the tail consists of the contents of the values, in lengths that depend on each value alone.
-/

namespace NodeProtocol.Abi

open Bytes (Holds)

structure Region where
  start : Nat
  length : Nat

namespace Region

def stop (region : Region) : Nat :=
  region.start + region.length

def Contains (region : Region) (position : Nat) : Prop :=
  region.start ≤ position ∧ position < region.stop

end Region

def Tiles : (first : Nat) → List Region → (last : Nat) → Prop
  | first, [], last => first = last
  | first, region :: regions, last => region.start = first ∧ Tiles region.stop regions last

namespace Tiles

variable {first middle last : Nat} {regions others : List Region}

theorem append (h : Tiles first regions middle) (more : Tiles middle others last) :
    Tiles first (regions ++ others) last := by
  induction regions generalizing first with
  | nil =>
      cases h
      exact more
  | cons region regions ih => exact ⟨h.1, ih h.2⟩

theorem sum_length (h : Tiles first regions last) :
    first + (regions.map Region.length).sum = last := by
  induction regions generalizing first with
  | nil => exact h
  | cons region regions ih =>
      rw [List.map_cons, List.sum_cons, ← ih h.2, Region.stop, h.1, Nat.add_assoc]

theorem le (h : Tiles first regions last) : first ≤ last :=
  h.sum_length ▸ Nat.le_add_right ..

theorem first_le_start (h : Tiles first regions last) :
    ∀ region ∈ regions, first ≤ region.start := by
  induction regions generalizing first with
  | nil => nofun
  | cons region regions ih =>
      rw [List.forall_mem_cons]
      obtain ⟨rfl, rest⟩ := h
      exact ⟨Nat.le_refl _, fun other member => (Nat.le_add_right ..).trans (ih rest other member)⟩

theorem pairwise (h : Tiles first regions last) :
    regions.Pairwise fun region later => region.stop ≤ later.start := by
  induction regions generalizing first with
  | nil => exact .nil
  | cons region regions ih => exact .cons h.2.first_le_start (ih h.2)

theorem exists_contains_iff (h : Tiles first regions last) (position : Nat) :
    (∃ region ∈ regions, region.Contains position) ↔ first ≤ position ∧ position < last := by
  induction regions generalizing first with
  | nil =>
      cases h
      simp only [List.not_mem_nil, false_and, exists_false, false_iff]
      omega
  | cons region regions ih =>
      obtain ⟨rfl, rest⟩ := h
      have stop : region.start ≤ region.stop := Nat.le_add_right ..
      have last := rest.le
      rw [List.exists_mem_cons_iff, ih rest, Region.Contains]
      omega

end Tiles

def InTurn {α : Type} (lies : α → (offset : Nat) → List Region → Prop) (width : α → Nat) :
    List α → (offset : Nat) → List Region → Prop
  | [], _, regions => regions = []
  | item :: items, offset, regions =>
    ∃ first rest, regions = first ++ rest ∧ lies item offset first ∧
      InTurn lies width items (offset + width item) rest

/-- The content of a dynamic scalar is a length word and whole words of data, and that of a dynamic
dimension a count word and the static parts of the elements. -/
def LaidOut (data : Bytes) (kind : Kind) :
    (dims : List Dim) → Payload dims → (offset : Nat) → List Region → Prop
  | [], leaf, offset, regions =>
    if kind.isDynamic then
      ∃ start, Holds data offset (Word.ofUnsigned start kind.wordSize) ∧
        Holds data start (Word.ofUnsigned (List.length leaf) kind.wordSize ++
          Word.padRight leaf kind.wordSize) ∧
        regions = [⟨start, kind.wordSize + Word.roundUp (List.length leaf) kind.wordSize⟩]
    else Holds data offset (kind.encode leaf) ∧ regions = []
  | .fixed _ :: inner, items, offset, regions =>
    InTurn (LaidOut data kind inner) (fun _ => stride kind inner) items offset regions
  | .dynamic :: inner, items, offset, regions =>
    ∃ start rest, Holds data offset (Word.ofUnsigned start kind.wordSize) ∧
      Holds data start (Word.ofUnsigned (List.length items) kind.wordSize) ∧
      regions = ⟨start, kind.wordSize + List.length items * stride kind inner⟩ :: rest ∧
      InTurn (LaidOut data kind inner) (fun _ => stride kind inner) items (start + kind.wordSize)
        rest

def Value.LaidOut (data : Bytes) (value : Value) : (offset : Nat) → List Region → Prop :=
  Abi.LaidOut data value.type.kind value.type.dims value.payload

theorem inTurn_sequence {α : Type} {data : Bytes} {part : α → (start : Nat) → Part}
    {lies : α → (offset : Nat) → List Region → Prop} {width : α → Nat} {items : List α}
    {offset start : Nat}
    (each : ∀ item ∈ items, ∀ {offset start}, Holds data offset (part item start).head →
      Holds data start (part item start).content →
        ∃ regions, lies item offset regions ∧
          Tiles start regions (start + (part item start).content.length))
    (widths : ∀ item ∈ items, ∀ start, (part item start).head.length = width item)
    (heads : Holds data offset (Part.sequence part items start).head)
    (contents : Holds data start (Part.sequence part items start).content) :
    ∃ regions, InTurn lies width items offset regions ∧
      Tiles start regions (start + (Part.sequence part items start).content.length) := by
  induction items generalizing offset start with
  | nil => exact ⟨[], rfl, rfl⟩
  | cons item items ih =>
      rw [List.forall_mem_cons] at each widths
      obtain ⟨head, heads⟩ := Bytes.holds_append heads
      obtain ⟨content, contents⟩ := Bytes.holds_append contents
      rw [widths.1] at heads
      obtain ⟨first, lies, tiles⟩ := each.1 head content
      obtain ⟨rest, others, more⟩ := ih each.2 widths.2 heads contents
      refine ⟨first ++ rest, ⟨first, rest, rfl, lies, others⟩, ?_⟩
      have tiled := tiles.append more
      rwa [Nat.add_assoc, ← List.length_append] at tiled

theorem Kind.encode_dynamic {kind : Kind} (leaf : Bytes) (h : kind.isDynamic = true) :
    kind.encode leaf =
      Word.ofUnsigned leaf.length kind.wordSize ++ Word.padRight leaf kind.wordSize := by
  cases kind with
  | bytes | string => rfl
  | _ => cases h

theorem Kind.length_encode_dynamic {kind : Kind} (leaf : Bytes) (h : kind.isDynamic = true) :
    (kind.encode leaf).length = kind.wordSize + Word.roundUp leaf.length kind.wordSize := by
  rw [encode_dynamic leaf h, List.length_append, Word.length_ofUnsigned kind.size_le_wordSize,
    Word.length_padRight]

section Parts

variable {data : Bytes} {kind : Kind} {dims inner : List Dim} {offset start : Nat}

theorem laidOut_scalar {payload : Payload []}
    (head : Holds data offset (Part.ofPayload kind [] payload start).head)
    (content : Holds data start (Part.ofPayload kind [] payload start).content) :
    ∃ regions, LaidOut data kind [] payload offset regions ∧
      Tiles start regions (start + (Part.ofPayload kind [] payload start).content.length) := by
  cases dynamic : kind.isDynamic with
  | true =>
      have part : Part.ofPayload kind [] payload start =
          Part.indirect kind start (kind.encode payload) := if_pos dynamic
      rw [part] at head content ⊢
      have encoded := Kind.encode_dynamic payload dynamic
      refine ⟨[⟨start, _⟩], (if_pos dynamic).mpr ⟨start, head, encoded ▸ content, rfl⟩, rfl, ?_⟩
      rw [← Kind.length_encode_dynamic payload dynamic]
      rfl
  | false =>
      have part : Part.ofPayload kind [] payload start = ⟨kind.encode payload, []⟩ :=
        if_neg (by simp [dynamic])
      rw [part] at head ⊢
      exact ⟨[], (if_neg (by simp [dynamic])).mpr ⟨head, rfl⟩, rfl⟩

theorem laidOut_dynamic {payload : Payload (.dynamic :: inner)}
    (each : ∀ item ∈ payload.items, ∀ {offset start},
      Holds data offset (Part.ofPayload kind inner item start).head →
      Holds data start (Part.ofPayload kind inner item start).content →
        ∃ regions, LaidOut data kind inner item offset regions ∧
          Tiles start regions (start + (Part.ofPayload kind inner item start).content.length))
    (widths : ∀ item ∈ payload.items, ∀ start,
      (Part.ofPayload kind inner item start).head.length = stride kind inner)
    (pointer : Holds data offset (Word.ofUnsigned start kind.wordSize))
    (content : Holds data start
      (Part.counted kind inner payload.items (start + kind.wordSize))) :
    ∃ regions, LaidOut data kind (.dynamic :: inner) payload offset regions ∧
      Tiles start regions
        (start + (Part.counted kind inner payload.items (start + kind.wordSize)).length) := by
  rw [Part.counted, ← stride_eq] at content ⊢
  have word : (Word.ofUnsigned payload.items.length kind.wordSize).length = kind.wordSize :=
    Word.length_ofUnsigned kind.size_le_wordSize
  obtain ⟨count, parts⟩ := Bytes.holds_append content
  obtain ⟨heads, contents⟩ := Bytes.holds_append parts
  rw [word] at heads contents
  rw [Part.length_head_sequence widths] at contents
  obtain ⟨rest, inTurn, tiles⟩ := inTurn_sequence each widths heads contents
  refine ⟨_ :: rest, ⟨start, rest, pointer, count, rfl, inTurn⟩, rfl, ?_⟩
  rw [List.length_append, word, Part.bytes, List.length_append, Part.length_head_sequence widths]
  simpa only [Region.stop, Nat.add_assoc] using tiles

theorem laidOut_ofPayload {payload : Payload dims} (valid : Ty.Valid kind dims)
    (wellFormed : payload.WellFormed kind dims)
    (head : Holds data offset (Part.ofPayload kind dims payload start).head)
    (content : Holds data start (Part.ofPayload kind dims payload start).content) :
    ∃ regions, LaidOut data kind dims payload offset regions ∧
      Tiles start regions (start + (Part.ofPayload kind dims payload start).content.length) := by
  -- The regions of the items tile the tail in turn, so those of one item begin where the last ones end.
  induction dims generalizing offset start with
  | nil => exact laidOut_scalar head content
  | cons dim inner ih =>
      obtain ⟨admits, wellFormed⟩ := wellFormed
      have each : ∀ item ∈ payload.items, ∀ {offset start},
          Holds data offset (Part.ofPayload kind inner item start).head →
          Holds data start (Part.ofPayload kind inner item start).content →
            ∃ regions, LaidOut data kind inner item offset regions ∧
              Tiles start regions (start + (Part.ofPayload kind inner item start).content.length) :=
        fun item member _ _ => ih valid.tail (wellFormed item member)
      have widths : ∀ item ∈ payload.items, ∀ start,
          (Part.ofPayload kind inner item start).head.length = stride kind inner := by
        intro item member start
        rw [stride_eq]
        exact Part.length_head_ofPayload valid.tail (wellFormed item member) start
      cases dim with
      | fixed length =>
          rw [Part.ofPayload_fixed admits] at head content ⊢
          exact inTurn_sequence each widths (holds_fill head) content
      | dynamic =>
          rw [Part.ofPayload_dynamic] at head content ⊢
          have pointer := holds_fill head
          exact laidOut_dynamic each widths pointer content

end Parts

namespace Part

theorem length_content_sequence {α : Type} {part : α → (start : Nat) → Part} {size : α → Nat}
    {items : List α} (h : ∀ item ∈ items, ∀ start, (part item start).content.length = size item)
    (start : Nat) : (sequence part items start).content.length = (items.map size).sum := by
  induction items generalizing start with
  | nil => rfl
  | cons item items ih =>
      rw [List.forall_mem_cons] at h
      rw [sequence, List.length_append, h.1, ih h.2, List.map_cons, List.sum_cons]

theorem length_content_ofPayload {kind : Kind} {dims : List Dim} {payload : Payload dims}
    (valid : Ty.Valid kind dims) (wellFormed : payload.WellFormed kind dims) (start other : Nat) :
    (ofPayload kind dims payload start).content.length =
      (ofPayload kind dims payload other).content.length := by
  induction dims generalizing start other with
  | nil =>
      cases dynamic : kind.isDynamic <;> simp [ofPayload, dynamic, indirect]
  | cons dim inner ih =>
      obtain ⟨admits, wellFormed⟩ := wellFormed
      have sizes : ∀ item ∈ payload.items, ∀ start,
          (ofPayload kind inner item start).content.length =
            (ofPayload kind inner item 0).content.length :=
        fun item member start => ih valid.tail (wellFormed item member) start 0
      have widths : ∀ item ∈ payload.items, ∀ start,
          (ofPayload kind inner item start).head.length = staticLength kind inner :=
        fun item member => length_head_ofPayload valid.tail (wellFormed item member)
      cases dim with
      | fixed length =>
          rw [ofPayload_fixed admits, ofPayload_fixed admits]
          exact (length_content_sequence sizes start).trans
            (length_content_sequence sizes other).symm
      | dynamic =>
          have length (elements : Nat) : (counted kind inner payload.items elements).length =
              (Word.ofUnsigned payload.items.length kind.wordSize).length +
                (payload.items.length * staticLength kind inner + (payload.items.map fun item =>
                  (ofPayload kind inner item 0).content.length).sum) := by
            rw [counted, bytes, List.length_append, List.length_append, length_head_sequence widths,
              length_content_sequence sizes]
          rw [ofPayload_dynamic, ofPayload_dynamic]
          exact (length _).trans (length _).symm

end Part

theorem Value.laidOut_part {data : Bytes} {value : Value} {offset start : Nat}
    (wellFormed : value.WellFormed) (head : Holds data offset (value.part start).head)
    (content : Holds data start (value.part start).content) :
    ∃ regions, value.LaidOut data offset regions ∧
      Tiles start regions (start + (value.part start).content.length) :=
  laidOut_ofPayload value.type.valid wellFormed head content

theorem Value.length_content {value : Value} (wellFormed : value.WellFormed) (start : Nat) :
    (value.part start).content.length = value.tailLength := by
  have head : (value.part value.staticLength).head.length = value.staticLength :=
    Part.length_head_ofPayload value.type.valid wellFormed value.staticLength
  rw [tailLength, encode, Part.bytes, List.length_append, head, Nat.add_sub_cancel_left]
  exact Part.length_content_ofPayload value.type.valid wellFormed start value.staticLength

theorem length_encodeArguments {values : List Value}
    (wellFormed : ∀ value ∈ values, value.WellFormed) :
    (encodeArguments values).length =
      (values.map fun value => value.staticLength + value.tailLength).sum := by
  have contents : ∀ value ∈ values, ∀ start, (value.part start).content.length = value.tailLength :=
    fun value member => value.length_content (wellFormed value member)
  rw [encodeArguments, Part.bytes, List.length_append, length_head_arguments wellFormed,
    Part.length_content_sequence contents, ← sum_staticLength, List.sum_map_add]

theorem laidOut_encodeArguments {values : List Value}
    (wellFormed : ∀ value ∈ values, value.WellFormed) :
    ∃ regions, InTurn (Value.LaidOut (encodeArguments values)) Value.staticLength values 0 regions ∧
      Tiles (headLength values) regions (encodeArguments values).length := by
  have whole : Holds (encodeArguments values) 0 (encodeArguments values) :=
    ⟨[], [], (List.append_nil _).symm, rfl⟩
  obtain ⟨heads, contents⟩ := Bytes.holds_append whole
  rw [length_head_arguments wellFormed, Nat.zero_add] at contents
  have each : ∀ value ∈ values, ∀ {offset start},
      Holds (encodeArguments values) offset (value.part start).head →
      Holds (encodeArguments values) start (value.part start).content →
        ∃ regions, value.LaidOut (encodeArguments values) offset regions ∧
          Tiles start regions (start + (value.part start).content.length) :=
    fun value member _ _ => Value.laidOut_part (wellFormed value member)
  have widths : ∀ value ∈ values, ∀ start, (value.part start).head.length = value.staticLength :=
    fun value member => Part.length_head_ofPayload value.type.valid (wellFormed value member)
  obtain ⟨regions, inTurn, tiles⟩ := inTurn_sequence each widths heads contents
  refine ⟨regions, inTurn, ?_⟩
  rw [encodeArguments, Part.bytes, List.length_append, length_head_arguments wellFormed]
  exact tiles

/-- Every node below a well-formed one is well-formed, so that what is said of a call holds of all
calls that it makes. -/
theorem encodeArguments_layout {values : List Value}
    (built : ∀ value ∈ values, ∃ token, Value.ofToken value.type token = .ok value) :
    (writeArguments values = some (encodeArguments values) ∧
      ∀ value ∈ values, value.payload.WellFormed value.type.kind value.type.dims) ∧
    (∀ {kind : Kind} {dims : List Dim} {payload : Payload dims} {start : Nat} {out : Bytes},
      Ty.Valid kind dims → payload.WellFormed kind dims →
        (start + staticLength kind dims ≤ out.length →
          ∃ written, (payload.tree dims).write? kind dims start out = some written) ∧
        ∀ {written}, (payload.tree dims).write? kind dims start out = some written →
          Confined start (staticLength kind dims) out written) ∧
    (∃ regions, InTurn (Value.LaidOut (encodeArguments values)) Value.staticLength values 0 regions ∧
      regions.Pairwise (fun region later => region.stop ≤ later.start) ∧
      (∀ position, (∃ region ∈ regions, region.Contains position) ↔
        headLength values ≤ position ∧ position < (encodeArguments values).length) ∧
      (encodeArguments values).length =
        headLength values + (regions.map Region.length).sum) ∧
    (encodeArguments values).length =
      (values.map fun value => value.staticLength + value.tailLength).sum := by
  have wellFormed : ∀ value ∈ values, value.WellFormed := by
    intro value member
    obtain ⟨token, h⟩ := built value member
    exact Value.wellFormed_of_ofToken h
  obtain ⟨regions, inTurn, tiles⟩ := laidOut_encodeArguments wellFormed
  refine ⟨⟨writeArguments_eq wellFormed, wellFormed⟩, ?_, ?_, length_encodeArguments wellFormed⟩
  · exact fun valid wellFormed => ⟨exists_write valid wellFormed, confined_write valid wellFormed⟩
  · exact ⟨regions, inTurn, tiles.pairwise, tiles.exists_contains_iff, tiles.sum_length.symm⟩

def scatteredArguments : List Value :=
  let texts : List Bytes := [[97, 98]]
  let arrays : List (List Bytes) := [[[1]], []]
  [⟨⟨.string, [.fixed 2], by decide⟩, texts⟩, ⟨⟨.uint 8, [.dynamic, .dynamic], by decide⟩, arrays⟩]

theorem encodeArguments_layout_scattered :
    writeArguments scatteredArguments = some (encodeArguments scatteredArguments) ∧
    (encodeArguments scatteredArguments).length = 176 ∧
    ∃ regions, InTurn (Value.LaidOut (encodeArguments scatteredArguments)) Value.staticLength
      scatteredArguments 0 regions ∧ (regions.map Region.length).sum = 128 := by
  have built : ∀ value ∈ scatteredArguments,
      ∃ token, Value.ofToken value.type token = .ok value := by
    simp only [scatteredArguments, List.forall_mem_cons, List.not_mem_nil, false_implies,
      implies_true, and_true]
    exact ⟨⟨.array [.string "ab"], rfl⟩, ⟨.array [.array [.uint 1], .array []], rfl⟩⟩
  obtain ⟨⟨written, -⟩, -, ⟨regions, inTurn, -, -, total⟩, -⟩ := encodeArguments_layout built
  have length : (encodeArguments scatteredArguments).length = 176 := by decide +kernel
  have head : headLength scatteredArguments = 48 := rfl
  exact ⟨written, length, regions, inTurn, by omega⟩

end NodeProtocol.Abi
