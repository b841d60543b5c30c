import NodeProtocol.Abi.Value
import NodeProtocol.Proofs.Abi.Leaf

namespace NodeProtocol.Abi

namespace Dim

theorem slots_pos {dims : List Dim} (h : Dim.fixed 0 ∉ dims) : 0 < slots dims := by
  induction dims with
  | nil => exact Nat.one_pos
  | cons dim inner ih =>
      rw [List.mem_cons, not_or] at h
      apply Nat.mul_pos _ (ih h.2)
      cases dim with
      | dynamic => exact Nat.one_pos
      | fixed length => exact Nat.pos_of_ne_zero fun zero => h.1 (congrArg Dim.fixed zero.symm)

def Admits : Dim → Nat → Prop
  | dynamic, _ => True
  | fixed length, count => count ≤ length

def IsFilled : Dim → Nat → Prop
  | dynamic, _ => True
  | fixed length, count => count = length

instance (dim : Dim) : DecidablePred dim.IsFilled := fun count =>
  match dim with
  | dynamic => isTrue trivial
  | fixed length => inferInstanceAs (Decidable (count = length))

theorem checkRoom_eq_ok {dim : Dim} {count : Nat} :
    dim.checkRoom count = .ok () ↔ dim.Admits count := by
  cases dim with
  | dynamic => exact ⟨fun _ => trivial, fun _ => rfl⟩
  | fixed length =>
      unfold checkRoom Admits
      simp only
      split
      · rename_i room
        exact ⟨fun _ => room, fun _ => rfl⟩
      · rename_i full
        exact ⟨nofun, fun room => absurd room full⟩

end Dim

theorem stride_eq (kind : Kind) (inner : List Dim) : stride kind inner = staticLength kind inner :=
  Word.roundUp_mul _ _

theorem staticLength_le {kind : Kind} {dims : List Dim} (valid : Ty.Valid kind dims) :
    staticLength kind dims ≤ Word.wideSize * maxSlots :=
  Nat.mul_le_mul kind.wordSize_le valid.2.2.2

theorem wordSize_le_staticLength (kind : Kind) {dims : List Dim} (h : Dim.fixed 0 ∉ dims) :
    kind.wordSize ≤ staticLength kind dims :=
  Nat.le_mul_of_pos_right _ (Dim.slots_pos h)

theorem staticLength_fixed (kind : Kind) (length : Nat) (inner : List Dim) :
    staticLength kind (.fixed length :: inner) = length * staticLength kind inner := by
  simp only [staticLength, Dim.slots, Dim.factor]
  ring

namespace Payload

abbrev items {dim : Dim} {inner : List Dim} (payload : Payload (dim :: inner)) :
    List (Payload inner) :=
  payload

def WellFormed (kind : Kind) : (dims : List Dim) → Payload dims → Prop
  | [], leaf => kind.IsLeaf leaf
  | dim :: inner, payload =>
    dim.Admits payload.items.length ∧ ∀ item ∈ payload.items, WellFormed kind inner item

def Full : (dims : List Dim) → Payload dims → Prop
  | [], _ => True
  | dim :: inner, payload =>
    dim.IsFilled payload.items.length ∧ ∀ item ∈ payload.items, Full inner item

instance decidableFull : (dims : List Dim) → DecidablePred (Full dims)
  | [], _ => isTrue trivial
  | dim :: inner, payload =>
    have := decidableFull inner
    inferInstanceAs (Decidable (dim.IsFilled payload.items.length ∧
      ∀ item ∈ payload.items, Full inner item))

theorem wellFormed_of_ofToken {kind : Kind} {dims : List Dim} {token : Token}
    {payload : Payload dims} (h : ofToken kind dims token = .ok payload) :
    payload.WellFormed kind dims := by
  induction dims generalizing token with
  | nil =>
      cases token with
      | array items => cases h
      | _ => exact Kind.isLeaf_of_leafOfToken h
  | cons dim inner ih =>
      cases token with
      | array tokens =>
          obtain ⟨_, -, h⟩ := bind_eq_ok.mp h
          obtain ⟨_, room, built⟩ := bind_eq_ok.mp h
          refine ⟨?_, ?_⟩
          · rw [← (mapM_eq_ok.mp built).length_eq]
            exact Dim.checkRoom_eq_ok.mp room
          · intro item member
            obtain ⟨token, -, h⟩ := exists_of_mem_right (mapM_eq_ok.mp built) member
            exact ih h
      | _ => cases h

end Payload

namespace Part

variable {α : Type} {part : α → (start : Nat) → Part}

theorem length_head_sequence {items : List α} {width start : Nat}
    (h : ∀ item ∈ items, ∀ start, (part item start).head.length = width) :
    (sequence part items start).head.length = items.length * width := by
  induction items generalizing start with
  | nil => simp [sequence]
  | cons item items ih =>
      simp only [List.forall_mem_cons] at h
      simp only [sequence, List.length_append, List.length_cons, h.1, ih h.2]
      ring

theorem length_head_fill {part : Part} {length : Nat} (h : part.head.length ≤ length) :
    (part.fill length).head.length = length := by
  simp only [fill, List.length_append, List.length_replicate]
  omega

theorem ofPayload_fixed {kind : Kind} {length : Nat} {inner : List Dim}
    {payload : Payload (.fixed length :: inner)}
    (h : (Dim.fixed length).Admits payload.items.length) (start : Nat) :
    ofPayload kind (.fixed length :: inner) payload start =
      (sequence (ofPayload kind inner) payload.items start).fill
        (staticLength kind (.fixed length :: inner)) := by
  have all : payload.items.take length = payload.items := List.take_of_length_le h
  conv_rhs => rw [← all]
  rfl

def counted (kind : Kind) (inner : List Dim) (items : List (Payload inner)) (elements : Nat) :
    Bytes :=
  Word.ofUnsigned items.length kind.wordSize ++
    (sequence (ofPayload kind inner) items
      (elements + items.length * staticLength kind inner)).bytes

theorem ofPayload_dynamic (kind : Kind) {inner : List Dim} (payload : Payload (.dynamic :: inner))
    (start : Nat) :
    ofPayload kind (.dynamic :: inner) payload start =
      (indirect kind start (counted kind inner payload.items (start + kind.wordSize))).fill
        (staticLength kind (.dynamic :: inner)) := by
  rw [counted, ← stride_eq]
  rfl

theorem length_head_indirect (kind : Kind) (start : Nat) (content : Bytes) :
    (indirect kind start content).head.length = kind.wordSize :=
  Word.length_ofUnsigned kind.size_le_wordSize

theorem length_head_ofPayload {kind : Kind} {dims : List Dim} {payload : Payload dims}
    (valid : Ty.Valid kind dims) (h : payload.WellFormed kind dims) (start : Nat) :
    (ofPayload kind dims payload start).head.length = staticLength kind dims := by
  induction dims generalizing start with
  | nil =>
      have scalar : staticLength kind [] = kind.wordSize := Nat.mul_one _
      rw [scalar, ofPayload]
      split
      · exact length_head_indirect ..
      · rename_i static
        exact Kind.length_encode h valid.1 (by simpa using static)
  | cons dim inner ih =>
      obtain ⟨admits, wellFormed⟩ := h
      have heads : ∀ item ∈ payload.items, ∀ start,
          (ofPayload kind inner item start).head.length = staticLength kind inner :=
        fun item member start => ih valid.tail (wellFormed item member) start
      cases dim with
      | fixed length =>
          rw [ofPayload_fixed admits]
          apply length_head_fill
          rw [length_head_sequence heads, staticLength_fixed]
          exact Nat.mul_le_mul_right _ admits
      | dynamic =>
          rw [ofPayload_dynamic]
          apply length_head_fill
          rw [length_head_indirect]
          exact wordSize_le_staticLength kind valid.2.2.1

end Part

end NodeProtocol.Abi
