import NodeProtocol.Proofs.Abi.NormalForm
import NodeProtocol.Proofs.Abi.Shortfall

namespace NodeProtocol.Abi

open Decoder (Yields)

def scalarAt (kind : Kind) (data : Bytes) (position : Nat) : Token :=
  if position + kind.wordSize ≤ data.length then
    kind.ofWord ((data.drop position).take kind.wordSize)
  else kind.zero

variable {kind : Kind} {data : Bytes} {dims inner : List Dim} {offset : Nat}

theorem decode_eq_scalarAt (static : kind.isDynamic = false) :
    kind.decode data offset = .ok (scalarAt kind data offset) := by
  rw [Kind.decode_static data offset static, Word.read?, Bytes.slice?, scalarAt]
  split <;> rfl

theorem scalarAt_past_end {position : Nat} (past : data.length < position + kind.wordSize) :
    scalarAt kind data position = kind.zero :=
  if_neg (Nat.not_le.mpr past)

theorem scalarAt_advance {distance : Nat} (addressable : data.length < Word.positionBound)
    (more : Nat) :
    scalarAt kind data (advance offset distance + more) =
      scalarAt kind data (offset + distance + more) := by
  rcases Nat.lt_or_ge (offset + distance) Word.positionBound with inside | beyond
  · rw [advance_of_lt inside]
  · have room := kind.wordSize_pos
    -- A position that has stopped is as far beyond the data as the true one.
    have stopped : advance offset distance = Word.positionBound - 1 := by
      rw [advance, maxPosition]
      omega
    rw [stopped, scalarAt_past_end (by omega), scalarAt_past_end (by omega)]

theorem range_mul_flatMap {α : Type} (rows columns : Nat) (f : Nat → α) :
    (List.range rows).flatMap (fun i => (List.range columns).map fun j => f (i * columns + j)) =
      (List.range (rows * columns)).map f := by
  induction rows with
  | zero => simp
  | succ rows ih =>
      rw [List.range_succ, List.flatMap_append, ih, Nat.succ_mul, List.range_add, List.map_append,
        List.map_map, List.flatMap_singleton]
      rfl

theorem Token.Shaped.eq_of_leaves {token other : Token} (static : Dim.dynamic ∉ dims)
    (shaped : token.Shaped kind dims) (otherShaped : other.Shaped kind dims)
    (same : token.leaves = other.leaves) : token = other := by
  induction dims generalizing token other with
  | nil =>
      rw [Kind.Owns.leaves_eq shaped, Kind.Owns.leaves_eq otherShaped] at same
      exact List.singleton_inj.mp same
  | cons dim inner ih =>
      obtain ⟨items, rfl, filled, each⟩ := shaped.exists_items
      obtain ⟨others, rfl, otherFilled, otherEach⟩ := otherShaped.exists_items
      rw [List.mem_cons, not_or] at static
      rw [leaves_array, leaves_array] at same
      have lengths : items.length = others.length := by
        cases dim with
        | dynamic => exact absurd rfl static.1
        | fixed length => exact Eq.trans filled otherFilled.symm
      clear filled otherFilled shaped otherShaped
      congr 1
      induction items generalizing others with
      | nil => exact (List.eq_nil_of_length_eq_zero lengths.symm).symm
      | cons item items rest =>
          cases others with
          | nil => cases lengths
          | cons other others =>
              rw [List.forall_mem_cons] at each otherEach
              rw [List.flatMap_cons, List.flatMap_cons] at same
              obtain ⟨first, more⟩ := List.append_inj same
                ((each.1.length_leaves static.2).trans
                  (otherEach.1.length_leaves static.2).symm)
              rw [ih static.2 each.1 otherEach.1 first,
                rest each.2 others more otherEach.2 (Nat.succ.inj lengths)]

theorem yields_rows (valid : kind.Valid) (static : kind.isDynamic = false)
    (fixed : Dim.dynamic ∉ dims) (addressable : data.length < Word.positionBound) (offset : Nat) :
    ∃ token, Yields (decodeStatic kind data dims offset) token 0 ∧ token.Shaped kind dims ∧
      token.leaves = (List.range (Dim.slots dims)).map fun j =>
        scalarAt kind data (offset + j * kind.wordSize) := by
  induction dims generalizing offset with
  | nil =>
      have read : kind.decode data offset = .ok (scalarAt kind data offset) :=
        decode_eq_scalarAt static
      have owns : kind.Owns (scalarAt kind data offset) := by
        rcases Kind.decode_cases valid data offset with ⟨token, ok, owns⟩ | ⟨-, refused⟩
        · cases read.symm.trans ok
          exact owns
        · cases read.symm.trans refused
      refine ⟨scalarAt kind data offset, ?_, owns, ?_⟩
      · rw [decodeStatic, static]
        exact Decoder.yields_lift read
      · rw [owns.leaves_eq]
        simp [Dim.slots]
  | cons dim inner ih =>
      rw [List.mem_cons, not_or] at fixed
      cases dim with
      | dynamic => exact absurd rfl fixed.1
      | fixed length =>
          obtain ⟨items, each⟩ := exists_forall₂ fun i (_ : i ∈ List.range length) =>
            ih fixed.2 (advance offset (i * stride kind inner))
          have count : items.length = length := by rw [← each.length_eq, List.length_range]
          refine ⟨.array items, ?_, ⟨count, ?_⟩, ?_⟩
          · exact Yields.bind (m := 0) (n := 0) (Decoder.yields_mapM (each.imp fun _ _ h => h.1))
              (Decoder.yields_pure _)
          · intro item member
            obtain ⟨i, -, -, shaped, -⟩ := exists_of_mem_right each member
            exact shaped
          · have rows : (List.range length).map (fun i =>
                (List.range (Dim.slots inner)).map fun j =>
                  scalarAt kind data (offset + (i * Dim.slots inner + j) * kind.wordSize)) =
                items.map Token.leaves := by
              rw [← List.forall₂_eq_eq_eq, List.forall₂_map_left_iff, List.forall₂_map_right_iff]
              refine each.imp fun i item h => ?_
              rw [h.2.2]
              refine List.map_congr_left fun j _ => ?_
              rw [scalarAt_advance addressable, stride_eq, staticLength]
              congr 1
              ring
            rw [Token.leaves_array, List.flatMap_def, ← rows, ← List.flatMap_def,
              range_mul_flatMap length (Dim.slots inner) fun j =>
                scalarAt kind data (offset + j * kind.wordSize)]
            rfl

variable {ty : Ty}

theorem Ty.static_of_hasTail (static : ty.hasTail = false) :
    ty.kind.isDynamic = false ∧ Dim.dynamic ∉ ty.dims := by
  simpa [hasTail] using static

theorem exists_decode_static (static : ty.hasTail = false)
    (addressable : data.length < Word.positionBound) (offset : Nat) :
    ∃ token, ty.decode data offset = .ok token ∧ token.Shaped ty.kind ty.dims ∧
      token.leaves = (List.range (Dim.slots ty.dims)).map fun j =>
        scalarAt ty.kind data (offset + j * ty.wordSize) := by
  obtain ⟨scalar, fixed⟩ := Ty.static_of_hasTail static
  obtain ⟨token, yields, known⟩ := yields_rows ty.valid.1 scalar fixed addressable offset
  exact ⟨token, yields.run'_eq (Nat.zero_le _), known⟩

theorem scalarAt_append (front data : Bytes) (position : Nat) :
    scalarAt kind (front ++ data) (front.length + position) = scalarAt kind data position := by
  have behind : (front ++ data).drop (front.length + position) = data.drop position := by
    rw [← List.drop_drop, List.drop_left]
  rw [scalarAt, scalarAt, List.length_append, behind]
  by_cases inside : position + kind.wordSize ≤ data.length
  · rw [if_pos (by omega), if_pos inside]
  · rw [if_neg (by omega), if_neg inside]

theorem scalarAt_take {position : Nat} (n : Nat) :
    scalarAt kind (data.take n) position =
      if position + kind.wordSize ≤ n then scalarAt kind data position else kind.zero := by
  rw [scalarAt, scalarAt, List.length_take]
  by_cases kept : position + kind.wordSize ≤ n
  · rw [if_pos kept]
    by_cases inside : position + kind.wordSize ≤ data.length
    · rw [if_pos (by omega), if_pos inside, List.drop_take, List.take_take,
        Nat.min_eq_left (by omega)]
    · rw [if_neg (by omega), if_neg inside]
  · rw [if_neg (by omega), if_neg kept]

theorem Part.content_sequence_eq_nil {α : Type} {part : α → (start : Nat) → Part} {items : List α}
    (each : ∀ item ∈ items, ∀ start, (part item start).content = []) (start : Nat) :
    (sequence part items start).content = [] := by
  induction items generalizing start with
  | nil => rfl
  | cons item items ih =>
      rw [List.forall_mem_cons] at each
      rw [sequence, each.1, ih each.2, List.append_nil]

theorem Part.content_eq_nil {payload : Payload dims} (static : kind.isDynamic = false)
    (fixed : Dim.dynamic ∉ dims) (wellFormed : payload.WellFormed kind dims) (start : Nat) :
    (ofPayload kind dims payload start).content = [] := by
  induction dims generalizing start with
  | nil =>
      rw [ofPayload, static]
      rfl
  | cons dim inner ih =>
      rw [List.mem_cons, not_or] at fixed
      cases dim with
      | dynamic => exact absurd rfl fixed.1
      | fixed length =>
          rw [ofPayload_fixed wellFormed.1]
          exact content_sequence_eq_nil
            (fun item member => ih fixed.2 (wellFormed.2 item member)) start

theorem Ty.staticLength_lt (ty : Ty) : ty.staticLength < Word.positionBound :=
  (staticLength_le ty.valid).trans_lt (by decide)

theorem Value.length_encode_static {value : Value} (static : value.type.hasTail = false)
    (wellFormed : value.WellFormed) : value.encode.length = value.type.staticLength := by
  obtain ⟨scalar, fixed⟩ := Ty.static_of_hasTail static
  have head := Part.length_head_ofPayload value.type.valid wellFormed value.staticLength
  have content := Part.content_eq_nil scalar fixed wellFormed value.staticLength
  rw [encode, Part.bytes, part, content, List.append_nil, head]
  rfl

/-- Positions are 64-bit numbers, so that data has fewer than `Word.positionBound` bytes. A leaf is
zero as soon as a part of its word is missing. -/
theorem decode_rowMajor (static : ty.hasTail = false) :
    (∀ (data : Bytes) (offset : Nat), data.length < Word.positionBound →
      ∃ token, ty.decode data offset = .ok token ∧ token.Shaped ty.kind ty.dims ∧
        (token.leaves = (List.range (Dim.slots ty.dims)).map fun j =>
          scalarAt ty.kind data (offset + j * ty.wordSize)) ∧
        ∀ n, ∃ cut, ty.decode (data.take n) offset = .ok cut ∧ cut.Shaped ty.kind ty.dims ∧
          cut.leaves = token.leaves.mapIdx fun j leaf =>
            if offset + (j + 1) * ty.wordSize ≤ n then leaf else ty.kind.zero) ∧
    (∀ front data : Bytes, (front ++ data).length < Word.positionBound →
      ty.decode (front ++ data) front.length = ty.decode data 0) ∧
    (ty.kind.isFixedPoint = false → ∀ (token : Token) (value : Value),
      Value.ofToken ty token = .ok value →
        ∃ normal, value.toToken = .ok normal ∧ token.Normal ty.kind ty.dims normal ∧
          ty.decode value.encode 0 = .ok (normal.fill ty.kind ty.dims)) := by
  have fixed := (Ty.static_of_hasTail static).2
  refine ⟨?_, ?_, ?_⟩
  · intro data offset addressable
    obtain ⟨token, decoded, shaped, leaves⟩ := exists_decode_static static addressable offset
    refine ⟨token, decoded, shaped, leaves, fun n => ?_⟩
    have shorter : (data.take n).length < Word.positionBound :=
      Nat.lt_of_le_of_lt (List.length_take_le' n data) addressable
    obtain ⟨cut, decoded, shaped, kept⟩ := exists_decode_static static shorter offset
    refine ⟨cut, decoded, shaped, ?_⟩
    rw [kept, leaves]
    refine List.ext_getElem (by simp) fun j _ _ => ?_
    simp only [List.getElem_map, List.getElem_range, List.getElem_mapIdx, scalarAt_take,
      Nat.succ_mul, ← Nat.add_assoc]
    rfl
  · intro front data addressable
    rw [List.length_append] at addressable
    obtain ⟨token, decoded, shaped, leaves⟩ :=
      exists_decode_static static (by rwa [List.length_append]) front.length
    obtain ⟨other, otherDecoded, otherShaped, otherLeaves⟩ :=
      exists_decode_static static (Nat.lt_of_le_of_lt (Nat.le_add_left ..) addressable) 0
    rw [decoded, otherDecoded]
    refine congrArg Except.ok (shaped.eq_of_leaves fixed otherShaped ?_)
    rw [leaves, otherLeaves]
    refine List.map_congr_left fun j _ => ?_
    rw [scalarAt_append, Nat.zero_add]
  · intro lossless token value built
    have wellFormed := Value.wellFormed_of_ofToken built
    obtain ⟨normal, given, corresponds⟩ := Value.exists_normal lossless built
    obtain ⟨payload, -, same⟩ := bind_eq_ok.mp built
    cases same
    refine ⟨normal, given, corresponds, (Value.decode_fill_iff wellFormed ?_ given).mpr ?_⟩
    · rw [Value.length_encode_static static wellFormed]
      exact ty.staticLength_lt
    · -- Only a type with a tail can have a gap.
      rintro ⟨gap, -⟩
      have tailed := Ty.hasTail_iff.mpr gap.tailed
      rw [static] at tailed
      cases tailed

def square : Ty :=
  ⟨.uint 16, [.fixed 2, .fixed 2], by decide⟩

def cutWords : Bytes :=
  Word.ofUnsigned 9 Word.size ++ Word.ofUnsigned 5 Word.size ++ List.replicate 8 1

def firstCorner : Value :=
  let items : List (List Bytes) := [[[0, 7]]]
  ⟨square, items⟩

theorem decode_rowMajor_square :
    square.hasTail = false ∧ cutWords.length < Word.positionBound ∧
    (∃ token, square.decode cutWords 16 = .ok token ∧
      token.leaves = [.uint 5, .uint 0, .uint 0, .uint 0]) ∧
    square.decode firstCorner.encode 0 =
      .ok (.array [.array [.uint 7, .uint 0], .array [.uint 0, .uint 0]]) := by
  have static : square.hasTail = false := rfl
  obtain ⟨placed, -, filled⟩ := decode_rowMajor static
  have addressable : cutWords.length < Word.positionBound := by decide +kernel
  refine ⟨static, addressable, ?_, ?_⟩
  · obtain ⟨token, decoded, -, leaves, -⟩ := placed cutWords 16 addressable
    exact ⟨token, decoded, leaves⟩
  · have built : Value.ofToken square (.array [.array [.string "0x07"]]) = .ok firstCorner := rfl
    obtain ⟨normal, given, -, decoded⟩ := filled rfl _ _ built
    have known : firstCorner.toToken = .ok (.array [.array [.uint 7]]) := rfl
    cases known.symm.trans given
    exact decoded

end NodeProtocol.Abi
