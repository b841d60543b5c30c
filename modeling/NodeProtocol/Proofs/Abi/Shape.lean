import NodeProtocol.Proofs.Abi.Layout

namespace NodeProtocol.Abi

namespace Token

mutual

def leaves : Token → List Token
  | array items => leavesOfItems items
  | token => [token]

def leavesOfItems : List Token → List Token
  | [] => []
  | item :: items => item.leaves ++ leavesOfItems items

end

@[simp] theorem leaves_array (items : List Token) :
    (array items).leaves = items.flatMap leaves := by
  rw [leaves]
  induction items with
  | nil => rfl
  | cons item items ih => rw [leavesOfItems, ih, List.flatMap_cons]

end Token

namespace Kind

def Owns (kind : Kind) (token : Token) : Prop :=
  match kind, token with
  | fixedBytes length, .fixedBytes data => data.length = length
  | _, _ => token.variant = kind.variant

theorem Owns.variant_eq {kind : Kind} {token : Token} (h : kind.Owns token) :
    token.variant = kind.variant := by
  unfold Owns at h
  split at h
  · rfl
  · exact h

theorem Owns.leaves_eq {kind : Kind} {token : Token} (h : kind.Owns token) :
    token.leaves = [token] := by
  cases token with
  | array items => cases kind <;> cases h.variant_eq
  | _ => rfl

theorem owns_zero (kind : Kind) : kind.Owns kind.zero := by
  cases kind with
  | fixedBytes length => exact List.length_replicate
  | _ => rfl

theorem owns_ofWord {kind : Kind} {word : Bytes} (valid : kind.Valid)
    (length : word.length = kind.wordSize) : kind.Owns (kind.ofWord word) := by
  cases kind with
  | fixedBytes count =>
      have fits := fixedBytes_le_wordSize valid
      change (word.drop (word.length - count)).length = count
      rw [List.length_drop]
      omega
  | _ => rfl

theorem decode_cases {kind : Kind} (valid : kind.Valid) (data : Bytes) (offset : Nat) :
    (∃ token, kind.decode data offset = .ok token ∧ kind.Owns token) ∨
      kind = .string ∧ kind.decode data offset = .error .invalidUtf8 := by
  cases dynamic : kind.isDynamic with
  | false =>
      refine .inl ⟨_, decode_static data offset dynamic, ?_⟩
      cases found : Word.read? data offset kind.wordSize with
      | none => exact owns_zero kind
      | some word => exact owns_ofWord valid (Bytes.length_slice? found)
  | true =>
      cases kind with
      | bytes => exact .inl ⟨_, rfl, rfl⟩
      | string =>
          rw [decode, textToken]
          cases Text.ofUtf8? ((readData? data offset string.wordSize).getD []) with
          | none => exact .inr ⟨rfl, rfl⟩
          | some text => exact .inl ⟨_, rfl, rfl⟩
      | _ => cases dynamic

end Kind

namespace Token

def Shaped (kind : Kind) : (dims : List Dim) → Token → Prop
  | [], token => kind.Owns token
  | dim :: inner, array items =>
    dim.IsFilled items.length ∧ ∀ item ∈ items, Shaped kind inner item
  | _ :: _, _ => False

theorem Shaped.exists_items {kind : Kind} {dim : Dim} {inner : List Dim} {token : Token}
    (h : token.Shaped kind (dim :: inner)) :
    ∃ items, token = array items ∧ dim.IsFilled items.length ∧
      ∀ item ∈ items, Shaped kind inner item := by
  cases token with
  | array items => exact ⟨items, rfl, h⟩
  | _ => cases h

theorem Shaped.length_leaves {kind : Kind} {dims : List Dim} {token : Token}
    (h : token.Shaped kind dims) (static : Dim.dynamic ∉ dims) :
    token.leaves.length = Dim.slots dims := by
  induction dims generalizing token with
  | nil =>
      rw [Kind.Owns.leaves_eq h]
      rfl
  | cons dim inner ih =>
      obtain ⟨items, rfl, filled, shaped⟩ := h.exists_items
      rw [List.mem_cons, not_or] at static
      cases dim with
      | dynamic => exact absurd rfl static.1
      | fixed length =>
          have lengths : items.map (fun item => item.leaves.length) =
              items.map fun _ => Dim.slots inner :=
            List.map_congr_left fun item member => ih (shaped item member) static.2
          have count : items.length = length := filled
          rw [leaves_array, List.length_flatMap, lengths, List.map_const',
            List.sum_replicate_nat, count]
          rfl

end Token

end NodeProtocol.Abi
