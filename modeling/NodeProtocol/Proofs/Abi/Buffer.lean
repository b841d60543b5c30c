import NodeProtocol.Proofs.Abi.RoundTrip

namespace NodeProtocol.Abi

/-! ## Writing -/

def overwrite? (out : Bytes) (start : Nat) (bytes : Bytes) : Option Bytes :=
  if start + bytes.length ≤ out.length then
    some (out.take start ++ bytes ++ out.drop (start + bytes.length))
  else none

def writeWord? (out : Bytes) (start value width : Nat) : Option Bytes :=
  if start + width ≤ out.length then some (Word.write out start value width) else none

def writeInTurn {α : Type} (write : α → (start : Nat) → Bytes → Option Bytes) (width : α → Nat) :
    List α → (start : Nat) → Bytes → Option Bytes
  | [], _, out => some out
  | item :: items, start, out => do
    writeInTurn write width items (start + width item) (← write item start out)

def Tree.write? (kind : Kind) :
    (dims : List Dim) → Tree → (start : Nat) → Bytes → Option Bytes
  | [], .leaf bytes, start, out =>
    if kind.isDynamic then do
      return (← writeWord? out start out.length kind.wordSize) ++ kind.encode bytes
    else overwrite? out start (kind.encode bytes)
  | .fixed length :: inner, .list items, start, out =>
    writeInTurn (write? kind inner) (fun _ => stride kind inner) (items.take length) start out
  | .dynamic :: inner, .list items, start, out => do
    let pointed ← writeWord? out start out.length kind.wordSize
    let counted := pointed ++ Word.ofUnsigned items.length kind.wordSize
    writeInTurn (write? kind inner) (fun _ => stride kind inner) items counted.length
      (counted ++ List.replicate (items.length * stride kind inner) 0)
  | _, _, _, _ => none

def Value.write? (value : Value) (start : Nat) (out : Bytes) : Option Bytes :=
  value.tree.write? value.type.kind value.type.dims start out

def writeArguments (values : List Value) : Option Bytes :=
  writeInTurn Value.write? Value.staticLength values 0 (List.replicate (headLength values) 0)

theorem writeWord?_eq_overwrite? {out : Bytes} {start value width : Nat}
    (wide : Word.size ≤ width) :
    writeWord? out start value width = overwrite? out start (Word.ofUnsigned value width) := by
  have length : (Word.ofUnsigned value width).length = width := Word.length_ofUnsigned wide
  have all : (Word.ofUnsigned value width).takeLast width = Word.ofUnsigned value width :=
    Bytes.takeLast_of_length_le length.le
  rw [writeWord?, overwrite?, Word.write, all, length]

theorem writeInTurn_map {α β : Type} (f : α → β) (write : β → (start : Nat) → Bytes → Option Bytes)
    (width : β → Nat) (items : List α) (start : Nat) (out : Bytes) :
    writeInTurn write width (items.map f) start out =
      writeInTurn (fun item => write (f item)) (fun item => width (f item)) items start out := by
  induction items generalizing start out with
  | nil => rfl
  | cons item items ih => simp only [List.map_cons, writeInTurn, ih]

theorem write?_scalar (kind : Kind) (payload : Payload []) (start : Nat) (out : Bytes) :
    (payload.tree []).write? kind [] start out =
      if kind.isDynamic then
        (writeWord? out start out.length kind.wordSize).bind fun pointed =>
          some (pointed ++ kind.encode payload)
      else overwrite? out start (kind.encode payload) :=
  rfl

theorem write?_fixed {kind : Kind} {length : Nat} {inner : List Dim}
    {payload : Payload (.fixed length :: inner)}
    (h : (Dim.fixed length).Admits payload.items.length) (start : Nat) (out : Bytes) :
    (payload.tree (.fixed length :: inner)).write? kind (.fixed length :: inner) start out =
      writeInTurn (fun item => (Payload.tree inner item).write? kind inner)
        (fun _ => staticLength kind inner) payload.items start out := by
  have all : (payload.items.map (Payload.tree inner)).take length =
      payload.items.map (Payload.tree inner) :=
    List.take_of_length_le (by rw [List.length_map]; exact h)
  rw [← writeInTurn_map (Payload.tree inner) _ fun _ => _, ← all, ← stride_eq]
  rfl

theorem write?_dynamic (kind : Kind) {inner : List Dim} (payload : Payload (.dynamic :: inner))
    (start : Nat) (out : Bytes) :
    (payload.tree (.dynamic :: inner)).write? kind (.dynamic :: inner) start out =
      (writeWord? out start out.length kind.wordSize).bind fun pointed =>
        let counted := pointed ++ Word.ofUnsigned payload.items.length kind.wordSize
        writeInTurn (fun item => (Payload.tree inner item).write? kind inner)
          (fun _ => staticLength kind inner) payload.items counted.length
          (counted ++ List.replicate (payload.items.length * staticLength kind inner) 0) := by
  have count : (payload.items.map (Payload.tree inner)).length = payload.items.length :=
    List.length_map ..
  rw [← stride_eq, ← count]
  exact congrArg _ (funext fun _ => writeInTurn_map (Payload.tree inner) _ _ _ _ _)

/-! ## What a call leaves alone -/

/-- Outside of the slot of `width` bytes from `start` on, the bytes before are the bytes after. -/
def Confined (start width : Nat) (before after : Bytes) : Prop :=
  before.length ≤ after.length ∧
    ∀ i < before.length, i < start ∨ start + width ≤ i → after[i]? = before[i]?

namespace Confined

variable {start width : Nat} {a b c : Bytes}

theorem refl (start width : Nat) (out : Bytes) : Confined start width out out :=
  ⟨Nat.le_refl _, fun _ _ _ => rfl⟩

theorem append (start width : Nat) (out more : Bytes) : Confined start width out (out ++ more) := by
  refine ⟨?_, fun i inside _ => List.getElem?_append_left inside⟩
  rw [List.length_append]
  exact Nat.le_add_right _ _

theorem trans (first : Confined start width a b) (second : Confined start width b c) :
    Confined start width a c := by
  refine ⟨first.1.trans second.1, fun i inside outside => ?_⟩
  rw [second.2 i (inside.trans_le first.1) outside, first.2 i inside outside]

theorem mono {start' width' : Nat} (h : Confined start' width' a b) (low : start ≤ start')
    (high : start' + width' ≤ start + width) : Confined start width a b :=
  ⟨h.1, fun i inside outside => h.2 i inside (by omega)⟩

theorem trans_beyond {start' width' : Nat} (first : Confined start width a b)
    (second : Confined start' width' b c) (beyond : a.length ≤ start') :
    Confined start width a c := by
  refine ⟨first.1.trans second.1, fun i inside outside => ?_⟩
  rw [second.2 i (inside.trans_le first.1) (.inl (inside.trans_le beyond)),
    first.2 i inside outside]

end Confined

theorem confined_overwrite? {out bytes written : Bytes} {start : Nat}
    (h : overwrite? out start bytes = some written) :
    Confined start bytes.length out written := by
  unfold overwrite? at h
  split at h
  · rename_i room
    cases h
    have before : (out.take start).length = start := List.length_take_of_le (by omega)
    refine ⟨?_, fun i inside outside => ?_⟩
    · simp only [List.length_append, List.length_drop, before]
      omega
    · rcases outside with left | right
      · rw [List.append_assoc, List.getElem?_append_left (by rwa [before]), List.getElem?_take,
          if_pos left]
      · rw [List.getElem?_append_right (by rw [List.length_append, before]; exact right),
          List.getElem?_drop, List.length_append, before]
        congr 1
        omega
  · cases h

theorem confined_writeInTurn {α : Type} {write : α → (start : Nat) → Bytes → Option Bytes}
    {width : α → Nat} {items : List α} {start : Nat} {out written : Bytes}
    (each : ∀ item ∈ items, ∀ {start out written}, write item start out = some written →
      Confined start (width item) out written)
    (h : writeInTurn write width items start out = some written) :
    Confined start (items.map width).sum out written := by
  induction items generalizing start out with
  | nil =>
      cases h
      exact .refl _ _ _
  | cons item items ih =>
      obtain ⟨mid, first, rest⟩ := Option.bind_eq_some_iff.mp h
      rw [List.map_cons, List.sum_cons]
      have slot := each item List.mem_cons_self first
      have slots := ih (fun item member => each item (List.mem_cons_of_mem _ member)) rest
      exact (slot.mono (by omega) (by omega)).trans (slots.mono (by omega) (by omega))

theorem sum_map_const {α : Type} (items : List α) (width : Nat) :
    (items.map fun _ => width).sum = items.length * width := by
  rw [List.map_const', List.sum_replicate_nat]

theorem confined_pointer {kind : Kind} {dims : List Dim} {start value : Nat} {out written : Bytes}
    (valid : Ty.Valid kind dims) (h : writeWord? out start value kind.wordSize = some written) :
    Confined start (staticLength kind dims) out written := by
  rw [writeWord?_eq_overwrite? kind.size_le_wordSize] at h
  refine (confined_overwrite? h).mono (Nat.le_refl _) ?_
  rw [Word.length_ofUnsigned kind.size_le_wordSize]
  exact Nat.add_le_add_left (wordSize_le_staticLength kind valid.2.2.1) _

theorem confined_write {kind : Kind} {dims : List Dim} {payload : Payload dims} {start : Nat}
    {out written : Bytes} (valid : Ty.Valid kind dims) (wellFormed : payload.WellFormed kind dims)
    (h : (payload.tree dims).write? kind dims start out = some written) :
    Confined start (staticLength kind dims) out written := by
  induction dims generalizing start out written with
  | nil =>
      rw [write?_scalar] at h
      split at h
      · obtain ⟨pointed, placed, rest⟩ := Option.bind_eq_some_iff.mp h
        cases rest
        exact (confined_pointer valid placed).trans (.append _ _ _ _)
      · rename_i static
        have length := Kind.length_encode wellFormed valid.1 (by simpa using static)
        have scalar : staticLength kind [] = kind.wordSize := Nat.mul_one _
        rw [scalar, ← length]
        exact confined_overwrite? h
  | cons dim inner ih =>
      obtain ⟨admits, wellFormed⟩ := wellFormed
      have elements : ∀ item ∈ payload.items, ∀ {start out written},
          (item.tree inner).write? kind inner start out = some written →
            Confined start (staticLength kind inner) out written :=
        fun item member _ _ _ h => ih valid.tail (wellFormed item member) h
      cases dim with
      | fixed length =>
          rw [write?_fixed admits] at h
          refine (confined_writeInTurn elements h).mono (Nat.le_refl _) ?_
          rw [sum_map_const, staticLength_fixed]
          exact Nat.add_le_add_left (Nat.mul_le_mul_right _ admits) _
      | dynamic =>
          rw [write?_dynamic] at h
          obtain ⟨pointed, placed, rest⟩ := Option.bind_eq_some_iff.mp h
          have counted := (confined_pointer valid placed).trans
            (.append _ _ _ (Word.ofUnsigned payload.items.length kind.wordSize))
          exact (counted.trans (.append _ _ _ _)).trans_beyond (confined_writeInTurn elements rest)
            counted.1

/-! ## When a call returns -/

theorem exists_writeInTurn {α : Type} {write : α → (start : Nat) → Bytes → Option Bytes}
    {width : α → Nat} {items : List α} {start : Nat} {out : Bytes}
    (each : ∀ item ∈ items, ∀ {start out}, start + width item ≤ out.length →
      ∃ written, write item start out = some written)
    (grows : ∀ item ∈ items, ∀ {start out written}, write item start out = some written →
      out.length ≤ written.length)
    (room : start + (items.map width).sum ≤ out.length) :
    ∃ written, writeInTurn write width items start out = some written := by
  induction items generalizing start out with
  | nil => exact ⟨out, rfl⟩
  | cons item items ih =>
      rw [List.forall_mem_cons] at each grows
      rw [List.map_cons, List.sum_cons] at room
      have inside : start + width item ≤ out.length := by omega
      obtain ⟨mid, first⟩ := each.1 inside
      have longer := grows.1 first
      have others : start + width item + (items.map width).sum ≤ mid.length := by omega
      obtain ⟨written, rest⟩ := ih each.2 grows.2 others
      exact ⟨written, Option.bind_eq_some_iff.mpr ⟨mid, first, rest⟩⟩

theorem exists_write {kind : Kind} {dims : List Dim} {payload : Payload dims} {start : Nat}
    {out : Bytes} (valid : Ty.Valid kind dims) (wellFormed : payload.WellFormed kind dims)
    (room : start + staticLength kind dims ≤ out.length) :
    ∃ written, (payload.tree dims).write? kind dims start out = some written := by
  induction dims generalizing start out with
  | nil =>
      have scalar : staticLength kind [] = kind.wordSize := Nat.mul_one _
      rw [scalar] at room
      rw [write?_scalar]
      split
      · exact ⟨_, Option.bind_eq_some_iff.mpr ⟨_, if_pos room, rfl⟩⟩
      · rename_i static
        rw [← Kind.length_encode wellFormed valid.1 (by simpa using static)] at room
        exact ⟨_, if_pos room⟩
  | cons dim inner ih =>
      obtain ⟨admits, wellFormed⟩ := wellFormed
      have each : ∀ item ∈ payload.items, ∀ {start out},
          start + staticLength kind inner ≤ out.length →
            ∃ written, (item.tree inner).write? kind inner start out = some written :=
        fun item member _ _ => ih valid.tail (wellFormed item member)
      have grows : ∀ item ∈ payload.items, ∀ {start out written},
          (item.tree inner).write? kind inner start out = some written →
            out.length ≤ written.length :=
        fun item member _ _ _ h => (confined_write valid.tail (wellFormed item member) h).1
      cases dim with
      | fixed length =>
          rw [write?_fixed admits]
          refine exists_writeInTurn each grows (Nat.le_trans (Nat.add_le_add_left ?_ _) room)
          rw [sum_map_const, staticLength_fixed]
          exact Nat.mul_le_mul_right _ admits
      | dynamic =>
          have word := wordSize_le_staticLength kind valid.2.2.1
          have pointed : writeWord? out start out.length kind.wordSize =
              some (Word.write out start out.length kind.wordSize) :=
            if_pos ((Nat.add_le_add_left word start).trans room)
          rw [write?_dynamic, pointed]
          apply exists_writeInTurn each grows
          simp only [sum_map_const, List.length_append, List.length_replicate, Nat.le_refl]

/-! ## What a call writes -/

theorem overwrite?_slot {before slot after bytes : Bytes} (h : bytes.length = slot.length) :
    overwrite? (before ++ slot ++ after) before.length bytes = some (before ++ bytes ++ after) := by
  have room : before.length + bytes.length ≤ (before ++ slot ++ after).length := by
    simp only [List.length_append]
    omega
  have rest : (before ++ slot ++ after).drop (before.length + bytes.length) = after := by
    rw [h, ← List.length_append, List.drop_left]
  rw [overwrite?, if_pos room, rest, List.append_assoc before slot, List.take_left]

/-- In a slot of zeros, a call writes the head of the part whose content begins where the buffer
ends, and appends that content. -/
def Fills (write : (start : Nat) → Bytes → Option Bytes) (width : Nat)
    (part : (start : Nat) → Part) : Prop :=
  ∀ (before after : Bytes) (stop : Nat), stop = before.length + width + after.length →
    write before.length (before ++ List.replicate width 0 ++ after) =
      some (before ++ (part stop).head ++ after ++ (part stop).content)

theorem fills_writeInTurn {α : Type} {write : α → (start : Nat) → Bytes → Option Bytes}
    {width : α → Nat} {part : α → (start : Nat) → Part} {items : List α}
    (each : ∀ item ∈ items, Fills (write item) (width item) (part item))
    (widths : ∀ item ∈ items, ∀ start, (part item start).head.length = width item) :
    Fills (writeInTurn write width items) (items.map width).sum (Part.sequence part items) := by
  induction items with
  | nil =>
      intro before after stop _
      simp [writeInTurn, Part.sequence]
  | cons item items ih =>
      rw [List.forall_mem_cons] at each widths
      intro before after stop h
      rw [List.map_cons, List.sum_cons] at h ⊢
      have first := each.1 before (List.replicate (items.map width).sum 0 ++ after) stop
        (by rw [List.length_append, List.length_replicate]; omega)
      have next : (before ++ (part item stop).head).length = before.length + width item := by
        rw [List.length_append, widths.1]
      have others := ih each.2 widths.2 (before ++ (part item stop).head)
        (after ++ (part item stop).content) (stop + (part item stop).content.length)
        (by rw [next, List.length_append]; omega)
      rw [next] at others
      simp only [List.replicate_add, List.append_assoc] at first others ⊢
      refine Option.bind_eq_some_iff.mpr ⟨_, first, ?_⟩
      simpa only [Part.sequence, List.append_assoc] using others

section Dimensions

variable {kind : Kind} {inner : List Dim}

theorem fills_scalar {payload : Payload []} (valid : kind.Valid)
    (wellFormed : payload.WellFormed kind []) :
    Fills ((payload.tree []).write? kind []) (staticLength kind [])
      (Part.ofPayload kind [] payload) := by
  intro before after stop here
  have scalar : staticLength kind [] = kind.wordSize := Nat.mul_one _
  rw [scalar] at here ⊢
  rw [write?_scalar]
  cases dynamic : kind.isDynamic with
  | true =>
      have part : Part.ofPayload kind [] payload stop =
          Part.indirect kind stop (kind.encode payload) := if_pos dynamic
      have slot : (Word.ofUnsigned stop kind.wordSize).length =
          (List.replicate kind.wordSize (0 : UInt8)).length := by
        rw [Word.length_ofUnsigned kind.size_le_wordSize, List.length_replicate]
      have length : (before ++ List.replicate kind.wordSize 0 ++ after).length = stop := by
        simp only [List.length_append, List.length_replicate, here]
      rw [if_pos rfl, length, writeWord?_eq_overwrite? kind.size_le_wordSize,
        overwrite?_slot slot, part]
      rfl
  | false =>
      have part : Part.ofPayload kind [] payload stop = ⟨kind.encode payload, []⟩ :=
        if_neg (by simp [dynamic])
      have slot : (kind.encode payload).length =
          (List.replicate kind.wordSize (0 : UInt8)).length := by
        rw [Kind.length_encode wellFormed valid dynamic, List.length_replicate]
      rw [if_neg (by simp), overwrite?_slot slot, part, List.append_nil]

theorem fills_fixed {length : Nat} {payload : Payload (.fixed length :: inner)}
    (valid : Ty.Valid kind inner) (wellFormed : payload.WellFormed kind (.fixed length :: inner))
    (each : ∀ item ∈ payload.items, Fills ((item.tree inner).write? kind inner)
      (staticLength kind inner) (Part.ofPayload kind inner item)) :
    Fills ((payload.tree (.fixed length :: inner)).write? kind (.fixed length :: inner))
      (staticLength kind (.fixed length :: inner))
      (Part.ofPayload kind (.fixed length :: inner) payload) := by
  intro before after stop here
  obtain ⟨admits, wellFormed⟩ := wellFormed
  have widths : ∀ item ∈ payload.items, ∀ start,
      (Part.ofPayload kind inner item start).head.length = staticLength kind inner :=
    fun item member => Part.length_head_ofPayload valid (wellFormed item member)
  have room : payload.items.length * staticLength kind inner ≤
      staticLength kind (.fixed length :: inner) := by
    rw [staticLength_fixed]
    exact Nat.mul_le_mul_right _ admits
  -- What the missing items leave of the slot.
  obtain ⟨gap, split⟩ := Nat.exists_eq_add_of_le room
  have filled : staticLength kind (.fixed length :: inner) -
      (Part.sequence (Part.ofPayload kind inner) payload.items stop).head.length = gap := by
    rw [Part.length_head_sequence widths, split, Nat.add_sub_cancel_left]
  have written := fills_writeInTurn each widths before (List.replicate gap 0 ++ after) stop
    (by rw [sum_map_const, List.length_append, List.length_replicate]; omega)
  rw [write?_fixed admits, Part.ofPayload_fixed admits, Part.fill, filled, split,
    List.replicate_add]
  simpa only [sum_map_const, List.append_assoc] using written

theorem fills_dynamic {payload : Payload (.dynamic :: inner)}
    (valid : Ty.Valid kind (.dynamic :: inner))
    (wellFormed : payload.WellFormed kind (.dynamic :: inner))
    (each : ∀ item ∈ payload.items, Fills ((item.tree inner).write? kind inner)
      (staticLength kind inner) (Part.ofPayload kind inner item)) :
    Fills ((payload.tree (.dynamic :: inner)).write? kind (.dynamic :: inner))
      (staticLength kind (.dynamic :: inner))
      (Part.ofPayload kind (.dynamic :: inner) payload) := by
  intro before after stop here
  have widths : ∀ item ∈ payload.items, ∀ start,
      (Part.ofPayload kind inner item start).head.length = staticLength kind inner :=
    fun item member => Part.length_head_ofPayload valid.tail (wellFormed.2 item member)
  -- What the pointer leaves of the slot.
  obtain ⟨gap, split⟩ := Nat.exists_eq_add_of_le (wordSize_le_staticLength kind valid.2.2.1)
  have filled : staticLength kind (.dynamic :: inner) - (Part.indirect kind stop
      (Part.counted kind inner payload.items (stop + kind.wordSize))).head.length = gap := by
    rw [Part.length_head_indirect, split, Nat.add_sub_cancel_left]
  have length : (before ++ List.replicate (staticLength kind (.dynamic :: inner)) 0 ++
      after).length = stop := by
    simp only [List.length_append, List.length_replicate, here]
  have pointer : (Word.ofUnsigned stop kind.wordSize).length =
      (List.replicate kind.wordSize (0 : UInt8)).length := by
    rw [Word.length_ofUnsigned kind.size_le_wordSize, List.length_replicate]
  have placed : overwrite? (before ++ List.replicate kind.wordSize 0 ++
      (List.replicate gap 0 ++ after)) before.length (Word.ofUnsigned stop kind.wordSize) =
        some (before ++ Word.ofUnsigned stop kind.wordSize ++ (List.replicate gap 0 ++ after)) :=
    overwrite?_slot pointer
  have written := fills_writeInTurn each widths (before ++ Word.ofUnsigned stop kind.wordSize ++
    (List.replicate gap 0 ++ after) ++ Word.ofUnsigned payload.items.length kind.wordSize) []
    (stop + kind.wordSize + payload.items.length * staticLength kind inner) (by
      simp only [sum_map_const, List.length_append, List.length_replicate, List.length_nil,
        Word.length_ofUnsigned kind.size_le_wordSize]
      omega)
  rw [write?_dynamic, length, writeWord?_eq_overwrite? kind.size_le_wordSize,
    Part.ofPayload_dynamic, Part.fill, filled, split, List.replicate_add]
  simp only [sum_map_const, List.append_assoc, List.append_nil] at placed written ⊢
  refine Option.bind_eq_some_iff.mpr ⟨_, placed, ?_⟩
  simpa only [Part.indirect, Part.counted, Part.bytes, List.append_assoc] using written

end Dimensions

theorem fills_ofPayload {kind : Kind} {dims : List Dim} {payload : Payload dims}
    (valid : Ty.Valid kind dims) (wellFormed : payload.WellFormed kind dims) :
    Fills ((payload.tree dims).write? kind dims) (staticLength kind dims)
      (Part.ofPayload kind dims payload) := by
  induction dims with
  | nil => exact fills_scalar valid.1 wellFormed
  | cons dim inner ih =>
      have each : ∀ item ∈ payload.items, Fills ((item.tree inner).write? kind inner)
          (staticLength kind inner) (Part.ofPayload kind inner item) :=
        fun item member => ih valid.tail (wellFormed.2 item member)
      cases dim with
      | fixed length => exact fills_fixed valid.tail wellFormed each
      | dynamic => exact fills_dynamic valid wellFormed each

/-! ## Argument lists -/

theorem sum_staticLength (values : List Value) :
    (values.map Value.staticLength).sum = headLength values := by
  induction values with
  | nil => rfl
  | cons value values ih => rw [List.map_cons, List.sum_cons, ih, headLength]

theorem writeArguments_eq {values : List Value}
    (wellFormed : ∀ value ∈ values, value.WellFormed) :
    writeArguments values = some (encodeArguments values) := by
  have each : ∀ value ∈ values, Fills value.write? value.staticLength value.part :=
    fun value member => fills_ofPayload value.type.valid (wellFormed value member)
  have widths : ∀ value ∈ values, ∀ start, (value.part start).head.length = value.staticLength :=
    fun value member => Part.length_head_ofPayload value.type.valid (wellFormed value member)
  have written := fills_writeInTurn each widths [] [] (headLength values)
    (by rw [sum_staticLength, List.length_nil, Nat.zero_add, Nat.add_zero])
  rw [sum_staticLength] at written
  simpa only [writeArguments, encodeArguments, Part.bytes, List.nil_append, List.append_nil,
    List.length_nil] using written

end NodeProtocol.Abi
