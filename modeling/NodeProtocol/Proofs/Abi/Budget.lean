import NodeProtocol.Proofs.Abi.Layout

namespace NodeProtocol.Abi

namespace Decoder

variable {α β : Type}

def Yields (decoder : Decoder α) (value : α) (cost : Nat) : Prop :=
  ∀ budget, cost ≤ budget → decoder budget = .ok (value, budget - cost)

theorem yields_pure (value : α) : Yields (pure value) value 0 :=
  fun _ _ => rfl

theorem yields_lift {result : Except Error α} {value : α} (h : result = .ok value) :
    Yields (liftM result) value 0 := by
  subst h
  intro budget _
  rfl

theorem yields_claim (count stride : Nat) : Yields (claim count stride) () (count * stride) := by
  intro budget enough
  rw [claim, if_pos enough]

theorem Yields.bind {decoder : Decoder α} {next : α → Decoder β} {a : α} {b : β} {m n : Nat}
    (first : Yields decoder a m) (second : Yields (next a) b n) :
    Yields (decoder >>= next) b (m + n) := by
  intro budget enough
  have run : (decoder >>= next) budget = decoder budget >>= fun (a, rest) => next a rest := rfl
  rw [run, first budget (by omega)]
  change next a (budget - m) = _
  rw [second _ (by omega), Nat.sub_sub]

end Decoder

namespace Payload

def claims (kind : Kind) : (dims : List Dim) → Payload dims → Nat
  | [], _ => 0
  | .fixed _ :: inner, payload => payload.items.foldr (claims kind inner · + ·) 0
  | .dynamic :: inner, payload =>
    payload.items.length * staticLength kind inner +
      payload.items.foldr (claims kind inner · + ·) 0

end Payload

namespace Part

theorem foldr_le_content {α : Type} {part : α → (start : Nat) → Part} {cost : α → Nat}
    {items : List α} (start : Nat)
    (h : ∀ item ∈ items, ∀ start, cost item ≤ (part item start).content.length) :
    items.foldr (cost · + ·) 0 ≤ (sequence part items start).content.length := by
  induction items generalizing start with
  | nil => exact Nat.zero_le _
  | cons item items ih =>
      rw [List.forall_mem_cons] at h
      rw [List.foldr_cons, sequence, List.length_append]
      exact Nat.add_le_add (h.1 _) (ih _ h.2)

theorem claims_le_content {kind : Kind} {dims : List Dim} {payload : Payload dims}
    (valid : Ty.Valid kind dims) (h : payload.WellFormed kind dims) (start : Nat) :
    payload.claims kind dims ≤ (ofPayload kind dims payload start).content.length := by
  induction dims generalizing start with
  | nil => exact Nat.zero_le _
  | cons dim inner ih =>
      obtain ⟨admits, wellFormed⟩ := h
      have contents : ∀ item ∈ payload.items, ∀ start,
          item.claims kind inner ≤ (ofPayload kind inner item start).content.length :=
        fun item member start => ih valid.tail (wellFormed item member) start
      have heads : ∀ item ∈ payload.items, ∀ start,
          (ofPayload kind inner item start).head.length = staticLength kind inner :=
        fun item member start => length_head_ofPayload valid.tail (wellFormed item member) start
      cases dim with
      | fixed length =>
          rw [ofPayload_fixed admits]
          exact foldr_le_content start contents
      | dynamic =>
          rw [ofPayload_dynamic, Payload.claims]
          change _ ≤ (counted kind inner payload.items (start + kind.wordSize)).length
          rw [counted, Part.bytes, List.length_append, List.length_append,
            length_head_sequence heads]
          have rest := foldr_le_content (start + kind.wordSize +
            payload.items.length * staticLength kind inner) contents
          omega

end Part

end NodeProtocol.Abi
