import NodeProtocol.Proofs.Abi.Demand
import NodeProtocol.Proofs.Abi.RoundTrip

namespace NodeProtocol.Abi

namespace Kind

def Fits (kind : Kind) (token : Token) : Prop :=
  match kind, token with
  | int bits, .int value => -2 ^ (bits - 1) ≤ value ∧ value < 2 ^ (bits - 1)
  | uint bits, .uint value => value < 2 ^ bits
  | _, _ => True

theorem valueBits_half {bits : Nat} (valid : (int bits).Valid) :
    (((1 <<< valueBits bits) / 2 : Nat) : Int) = 2 ^ (bits - 1) := by
  obtain ⟨-, low, high⟩ := valid
  have split : (2 : Nat) ^ bits = 2 ^ (bits - 1) * 2 := by
    rw [← pow_succ, Nat.sub_add_cancel (by omega)]
  rw [valueBits, Nat.min_eq_left high, Nat.one_shiftLeft, split, Nat.mul_div_cancel _ Nat.two_pos]
  exact Nat.cast_pow 2 (bits - 1)

theorem signedLeaf_cases {bits : Nat} (valid : (int bits).Valid) (value : Int) :
    ((int bits).Fits (.int value) ∧ ∃ leaf, signedLeaf value bits = .ok leaf) ∨
      (¬ (int bits).Fits (.int value) ∧
        ∃ cause, signedLeaf value bits = .error (.overflow cause)) := by
  have half := valueBits_half valid
  by_cases fits : (int bits).Fits (.int value)
  · have range : -(2 ^ (bits - 1) : Int) ≤ value ∧ value < 2 ^ (bits - 1) := fits
    rw [← half] at range
    exact .inl ⟨fits, _, signedLeaf_eq_ok.mpr ⟨range, rfl⟩⟩
  · have range : ¬ (-(2 ^ (bits - 1) : Int) ≤ value ∧ value < 2 ^ (bits - 1)) := fits
    rw [← half] at range
    exact .inr ⟨fits, _, if_neg range⟩

theorem unsignedLeaf_cases {bits : Nat} (valid : (uint bits).Valid) (value : Nat) :
    ((uint bits).Fits (.uint value) ∧ ∃ leaf, unsignedLeaf value bits = .ok leaf) ∨
      (¬ (uint bits).Fits (.uint value) ∧
        ∃ cause, unsignedLeaf value bits = .error (.overflow cause)) := by
  have bound : 1 <<< valueBits bits = 2 ^ bits := by
    rw [valueBits, Nat.min_eq_left valid.2.2, Nat.one_shiftLeft]
  by_cases fits : (uint bits).Fits (.uint value)
  · have range : value < 2 ^ bits := fits
    rw [← bound] at range
    exact .inl ⟨fits, _, unsignedLeaf_eq_ok.mpr ⟨range, rfl⟩⟩
  · have range : ¬ value < 2 ^ bits := fits
    rw [← bound] at range
    exact .inr ⟨fits, _, if_neg range⟩

theorem leafOfToken_cases {kind : Kind} {token : Token} (valid : kind.Valid)
    (lossless : kind.isFixedPoint = false) (owns : kind.Owns token) :
    (kind.Fits token ∧ ∃ leaf, kind.leafOfToken token = .ok leaf) ∨
      (¬ kind.Fits token ∧ ∃ cause, kind.leafOfToken token = .error (.overflow cause)) := by
  cases kind with
  | real | ureal => cases lossless
  | int bits =>
      cases token with
      | int value => exact signedLeaf_cases valid value
      | _ => cases owns.variant_eq
  | uint bits =>
      cases token with
      | uint value => exact unsignedLeaf_cases valid value
      | _ => cases owns.variant_eq
  | fixedBytes length =>
      cases token with
      | fixedBytes data => exact .inl ⟨trivial, data, exactLength_eq_ok.mpr ⟨rfl, owns⟩⟩
      | _ => cases owns.variant_eq
  | address | bool | bytes | string =>
      cases token with
      | address | bool | bytes | string =>
          first
          | exact .inl ⟨trivial, _, rfl⟩
          | cases owns.variant_eq
      | _ => cases owns.variant_eq

end Kind

section Shaped

variable {kind : Kind} {dims inner : List Dim} {dim : Dim} {token : Token}

theorem Token.Shaped.variant_eq (h : token.Shaped kind dims) :
    token.variant = tokenVariant kind dims := by
  cases dims with
  | nil => exact Kind.Owns.variant_eq h
  | cons dim inner =>
      obtain ⟨items, rfl, -⟩ := h.exists_items
      rfl

theorem Dim.IsFilled.admits {count : Nat} (h : dim.IsFilled count) : dim.Admits count := by
  cases dim with
  | dynamic => trivial
  | fixed length => exact Nat.le_of_eq h

theorem ofToken_array {items : List Token} (filled : dim.IsFilled items.length)
    (shaped : ∀ item ∈ items, item.Shaped kind inner) :
    Payload.ofToken kind (dim :: inner) (.array items) =
      items.mapM (Payload.ofToken kind inner) := by
  have uniform : checkUniform items = .ok () :=
    checkUniform_of_variant fun item member => (shaped item member).variant_eq
  change (checkUniform items >>= fun _ => dim.checkRoom items.length >>= fun _ => _) = _
  rw [uniform, Dim.checkRoom_eq_ok.mpr filled.admits]
  rfl

theorem ofToken_cases (valid : kind.Valid) (lossless : kind.isFixedPoint = false)
    (shaped : token.Shaped kind dims) :
    ((∀ leaf ∈ token.leaves, kind.Fits leaf) ∧
      ∃ payload, Payload.ofToken kind dims token = .ok payload) ∨
    ((¬ ∀ leaf ∈ token.leaves, kind.Fits leaf) ∧
      ∃ cause, Payload.ofToken kind dims token = .error (.overflow cause)) := by
  induction dims generalizing token with
  | nil =>
      have owns : kind.Owns token := shaped
      rw [ofToken_scalar owns.variant_eq, owns.leaves_eq, List.forall_mem_singleton]
      exact Kind.leafOfToken_cases valid lossless owns
  | cons dim inner ih =>
      obtain ⟨items, rfl, filled, shaped⟩ := shaped.exists_items
      rw [ofToken_array filled shaped, Token.leaves_array]
      simp only [List.mem_flatMap, forall_exists_index, and_imp]
      rcases mapM_cases (Payload.ofToken kind inner) items with
        ⟨payloads, built⟩ | ⟨item, member, cause, fails, failed⟩
      · refine .inl ⟨?_, payloads, built⟩
        intro leaf item member inside
        rcases ih (shaped item member) with ⟨fits, -⟩ | ⟨-, cause, fails⟩
        · exact fits leaf inside
        · obtain ⟨i, here⟩ := List.getElem?_of_mem member
          obtain ⟨payload, -, ok⟩ := exists_getElem? (mapM_eq_ok.mp built) here
          rw [fails] at ok
          cases ok
      · rcases ih (shaped item member) with ⟨-, payload, ok⟩ | ⟨unfit, overflow, same⟩
        · rw [fails] at ok
          cases ok
        · rw [fails] at same
          cases same
          exact .inr ⟨fun fits => unfit fun leaf inside => fits leaf item member inside, overflow,
            failed⟩

theorem full_of_shaped {payload : Payload dims} (shaped : token.Shaped kind dims)
    (built : Payload.ofToken kind dims token = .ok payload) : payload.Full dims := by
  induction dims generalizing token with
  | nil => trivial
  | cons dim inner ih =>
      obtain ⟨items, rfl, filled, shaped⟩ := shaped.exists_items
      rw [ofToken_array filled shaped] at built
      have pairs := mapM_eq_ok.mp built
      refine ⟨pairs.length_eq ▸ filled, ?_⟩
      intro element member
      obtain ⟨item, inside, ok⟩ := exists_of_mem_right pairs member
      exact ih (shaped item inside) ok

theorem toToken_of_ofToken {payload : Payload dims} (valid : kind.Valid)
    (lossless : kind.isFixedPoint = false) (shaped : token.Shaped kind dims)
    (built : Payload.ofToken kind dims token = .ok payload) :
    payload.toToken kind dims = .ok token := by
  induction dims generalizing token with
  | nil =>
      have owns : kind.Owns token := shaped
      rw [ofToken_scalar owns.variant_eq] at built
      exact Kind.tokenOfLeaf_of_leafOfToken valid lossless owns.variant_eq built
  | cons dim inner ih =>
      obtain ⟨items, rfl, filled, shaped⟩ := shaped.exists_items
      rw [ofToken_array filled shaped] at built
      refine bind_eq_ok.mpr ⟨items, mapM_eq_ok.mpr ?_, rfl⟩
      have members := (List.forall₂_and_left _ _).mpr
        ⟨fun item (member : item ∈ items) => member, mapM_eq_ok.mp built⟩
      exact (members.imp fun item element h => ih (shaped item h.1) h.2).flip

end Shaped

theorem Ty.shaped_of_decode {ty : Ty} {data : Bytes} {offset : Nat} {token : Token}
    (decoded : ty.decode data offset = .ok token) : token.Shaped ty.kind ty.dims := by
  rcases ty.decode_cases data offset with
    ⟨other, ok, -, covered⟩ | ⟨_, refused, -⟩ | ⟨-, refused⟩
  · cases ok.symm.trans decoded
    exact covered.1
  · cases refused.symm.trans decoded
  · cases refused.symm.trans decoded

namespace Value

theorem decode_encode {value : Value} {token : Token} (wellFormed : value.WellFormed)
    (lossless : value.type.kind.isFixedPoint = false) (full : value.payload.Full value.type.dims)
    (addressable : value.encode.length < Word.positionBound) (h : value.toToken = .ok token) :
    decode value.type value.encode 0 = .ok value :=
  bind_eq_ok.mpr ⟨token, decode_of_stands wellFormed full addressable ⟨_, holds_encode wellFormed⟩ h,
    ofToken_of_toToken wellFormed lossless h⟩

theorem decode_eq_ofToken {ty : Ty} {data : Bytes} {offset : Nat} {token : Token}
    (decoded : ty.decode data offset = .ok token) : decode ty data offset = ofToken ty token := by
  rw [decode, decoded]
  rfl

end Value

/-- Positions are 64-bit numbers, so that an encoding has fewer than `Word.positionBound` bytes. -/
theorem decode_canonical {ty : Ty} {data : Bytes} {offset : Nat} {token : Token}
    (lossless : ty.kind.isFixedPoint = false) (decoded : ty.decode data offset = .ok token) :
    token.Shaped ty.kind ty.dims ∧
    ((∃ value, Value.decode ty data offset = .ok value) ↔
      ∀ leaf ∈ token.leaves, ty.kind.Fits leaf) ∧
    ((¬ ∀ leaf ∈ token.leaves, ty.kind.Fits leaf) →
      ∃ cause, Value.decode ty data offset = .error (.overflow cause)) ∧
    ∀ value, Value.decode ty data offset = .ok value →
      value.type = ty ∧ value.toToken = .ok token ∧
      (value.encode.length < Word.positionBound → Value.decode ty value.encode 0 = .ok value) := by
  have shaped := Ty.shaped_of_decode decoded
  have cases := ofToken_cases ty.valid.1 lossless shaped
  rw [Value.decode_eq_ofToken decoded]
  refine ⟨shaped, ?_, ?_, ?_⟩
  · constructor
    · rintro ⟨value, built⟩
      obtain ⟨payload, ok, -⟩ := bind_eq_ok.mp built
      rcases cases with ⟨fits, -⟩ | ⟨-, cause, fails⟩
      · exact fits
      · cases fails.symm.trans ok
    · intro fits
      rcases cases with ⟨-, payload, built⟩ | ⟨unfit, -⟩
      · exact ⟨⟨ty, payload⟩, bind_eq_ok.mpr ⟨payload, built, rfl⟩⟩
      · exact absurd fits unfit
  · intro unfit
    rcases cases with ⟨fits, -⟩ | ⟨-, cause, fails⟩
    · exact absurd fits unfit
    · refine ⟨cause, ?_⟩
      rw [Value.ofToken, fails]
      rfl
  · intro value built
    have wellFormed : value.WellFormed := Value.wellFormed_of_ofToken built
    obtain ⟨payload, ok, same⟩ := bind_eq_ok.mp built
    cases same
    have given : Value.toToken ⟨ty, payload⟩ = .ok token :=
      toToken_of_ofToken ty.valid.1 lossless shaped ok
    exact ⟨rfl, given, fun addressable =>
      Value.decode_encode wellFormed lossless (full_of_shaped shaped ok) addressable given⟩

def foldedType : Ty :=
  ⟨.fixedBytes 2, [.fixed 2, .dynamic], by decide⟩

def foldedData : Bytes :=
  Word.ofUnsigned 32 Word.size ++ Word.ofUnsigned 32 Word.size ++ Word.ofUnsigned 1 Word.size ++
    (List.replicate 14 9 ++ [1, 2])

def unfoldedValue : Value :=
  let items : List (List Bytes) := [[[1, 2]], [[1, 2]]]
  ⟨foldedType, items⟩

theorem decode_canonical_folded :
    Value.decode foldedType foldedData 0 = .ok unfoldedValue ∧
    foldedData.length < unfoldedValue.encode.length ∧
    Value.decode foldedType unfoldedValue.encode 0 = .ok unfoldedValue := by
  have decoded : foldedType.decode foldedData 0 =
      .ok (.array [.array [.fixedBytes [1, 2]], .array [.fixedBytes [1, 2]]]) := rfl
  have built : Value.decode foldedType foldedData 0 = .ok unfoldedValue := rfl
  obtain ⟨-, -, -, canonical⟩ := decode_canonical rfl decoded
  have longer : foldedData.length < unfoldedValue.encode.length := by decide +kernel
  have addressable : unfoldedValue.encode.length < Word.positionBound := by decide +kernel
  exact ⟨built, longer, (canonical unfoldedValue built).2.2 addressable⟩

end NodeProtocol.Abi
