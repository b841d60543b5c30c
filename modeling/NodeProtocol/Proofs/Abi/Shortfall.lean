import NodeProtocol.Proofs.Abi.RoundTrip

namespace NodeProtocol.Abi

open Bytes (Holds)
open Decoder (Gives)

def Payload.Leads : (dims : List Dim) → Payload dims → Prop
  | .fixed _ :: inner, payload => ∃ first, payload.items.head? = some first ∧ Leads inner first
  | _, _ => True

variable {kind : Kind} {dims : List Dim} {data : Bytes}

theorem Kind.wordSize_le_encode (dynamic : kind.isDynamic) (leaf : Bytes) :
    kind.wordSize ≤ (kind.encode leaf).length := by
  cases kind with
  | bytes | string =>
      rw [encode, List.length_append, Word.length_ofUnsigned (size_le_wordSize _)]
      exact Nat.le_add_right ..
  | _ => cases dynamic

namespace Part

theorem first_of_leads {payload : Payload dims} (wellFormed : payload.WellFormed kind dims)
    (tailed : Tailed kind dims) (leads : payload.Leads dims) (start : Nat) :
    ∃ rest, (ofPayload kind dims payload start).head =
        Word.ofUnsigned start kind.wordSize ++ rest ∧
      kind.wordSize ≤ (ofPayload kind dims payload start).content.length := by
  induction dims generalizing start with
  | nil =>
      have dynamic : kind.isDynamic := by simpa [Tailed] using tailed
      rw [ofPayload, if_pos dynamic]
      exact ⟨[], (List.append_nil _).symm, kind.wordSize_le_encode dynamic _⟩
  | cons dim inner ih =>
      cases dim with
      | fixed length =>
          obtain ⟨first, front, leads⟩ := leads
          obtain ⟨others, split⟩ := List.head?_eq_some_iff.mp front
          have member : first ∈ payload.items := split ▸ List.mem_cons_self
          obtain ⟨rest, head, content⟩ :=
            ih (wellFormed.2 first member) (tailed_fixed.mp tailed) leads start
          rw [ofPayload_fixed wellFormed.1, split, sequence, fill]
          refine ⟨_, by simp only [head, List.append_assoc]; rfl, ?_⟩
          rw [List.length_append]
          exact Nat.le_add_right_of_le content
      | dynamic =>
          rw [ofPayload_dynamic]
          refine ⟨_, rfl, ?_⟩
          change _ ≤ (counted ..).length
          rw [counted, List.length_append, Word.length_ofUnsigned kind.size_le_wordSize]
          exact Nat.le_add_right ..

theorem zeros_of_not_leads {payload : Payload dims} (valid : Ty.Valid kind dims)
    (wellFormed : payload.WellFormed kind dims) (leads : ¬ payload.Leads dims) (start : Nat) :
    ∃ rest, (ofPayload kind dims payload start).head =
      List.replicate kind.wordSize 0 ++ rest := by
  induction dims generalizing start with
  | nil => exact absurd trivial leads
  | cons dim inner ih =>
      cases dim with
      | fixed length =>
          rw [ofPayload_fixed wellFormed.1]
          cases split : payload.items with
          | nil =>
              have room := wordSize_le_staticLength kind valid.2.2.1
              refine ⟨List.replicate (staticLength kind (.fixed length :: inner) - kind.wordSize) 0,
                ?_⟩
              rw [List.replicate_append_replicate, Nat.add_sub_cancel' room]
              rfl
          | cons first others =>
              have member : first ∈ payload.items := split ▸ List.mem_cons_self
              have missing : ¬ first.Leads inner := by
                intro leading
                exact leads ⟨first, by rw [split, List.head?_cons], leading⟩
              obtain ⟨rest, head⟩ := ih valid.tail (wellFormed.2 first member) missing start
              exact ⟨_, by simp only [sequence, fill, head, List.append_assoc]; rfl⟩
      | dynamic => exact absurd trivial leads

end Part

theorem not_frontBlank {start : Nat} (pointer : Holds data 0 (Word.ofUnsigned start kind.wordSize))
    (positive : 0 < start) (inside : start + kind.wordSize ≤ data.length)
    (addressable : data.length < Word.positionBound) : ¬ FrontBlank kind data dims := by
  rw [FrontBlank]
  split
  case isTrue =>
    rw [readPosition_of_holds pointer kind.size_le_wordSize (by omega)]
    exact Nat.ne_of_gt positive
  case isFalse =>
    have window : Word.read? data (0 + kind.wordSize) start =
        some ((data.drop (0 + kind.wordSize)).take start) := if_pos (by omega)
    rw [Kind.readData?, Word.read?,
      Bytes.slice?_of_holds pointer (Word.length_ofUnsigned kind.size_le_wordSize)]
    simp only [Option.bind_eq_bind, Option.bind_some]
    rw [Word.toPosition?_ofUnsigned (by omega) kind.size_le_wordSize, Option.bind_some, window]
    intro empty
    have length := congrArg List.length empty
    rw [Option.getD_some, List.length_take, List.length_drop, List.length_nil] at length
    omega

theorem holds_of_sequence {α : Type} {part : α → (start : Nat) → Part} {items : List α} {item : α}
    {first start width i : Nat}
    (widths : ∀ item ∈ items, ∀ start, (part item start).head.length = width)
    (heads : Holds data first (Part.sequence part items start).head)
    (contents : Holds data start (Part.sequence part items start).content)
    (found : items[i]? = some item) :
    ∃ next, Holds data (first + i * width) (part item next).head ∧
      Holds data next (part item next).content := by
  induction items generalizing i first start with
  | nil => cases found
  | cons other items ih =>
      rw [List.forall_mem_cons] at widths
      obtain ⟨head, heads⟩ := Bytes.holds_append heads
      obtain ⟨content, contents⟩ := Bytes.holds_append contents
      cases i with
      | zero =>
          cases found
          exact ⟨start, by rwa [Nat.zero_mul], content⟩
      | succ i =>
          rw [widths.1] at heads
          rw [Nat.succ_mul, Nat.add_comm (i * width), ← Nat.add_assoc]
          exact ih widths.2 heads contents found

theorem gives_gap {payload : Payload dims} {token : Token} (valid : Ty.Valid kind dims)
    (wellFormed : payload.WellFormed kind dims) (gap : payload.HasGap kind dims)
    (front : ∀ dims, ¬ FrontBlank kind data dims) (addressable : data.length < Word.positionBound)
    (h : payload.toToken kind dims = .ok token) {offset start : Nat}
    (head : Holds data offset (Part.ofPayload kind dims payload start).head)
    (content : Holds data start (Part.ofPayload kind dims payload start).content) :
    Gives (decodeStatic kind data dims offset) (· ≠ token.fill kind dims) := by
  induction dims generalizing token offset start with
  | nil => cases gap
  | cons dim inner ih =>
      obtain ⟨tokens, tokensOk, h⟩ := bind_eq_ok.mp h
      cases h
      have pairs := mapM_eq_ok.mp tokensOk
      have widths : ∀ item ∈ payload.items, ∀ start,
          (Part.ofPayload kind inner item start).head.length = staticLength kind inner :=
        fun item member => Part.length_head_ofPayload valid.tail (wellFormed.2 item member)
      rw [Token.fill, ← pairs.length_eq]
      rcases gap with ⟨short, tailed⟩ | ⟨item, member, gap⟩
      · cases dim with
        | dynamic => cases short
        | fixed length =>
            have inside : payload.items.length < length := Nat.lt_of_sub_pos short
            have place : Holds data (offset + payload.items.length * staticLength kind inner)
                (List.replicate (staticLength kind inner) 0) :=
              Bytes.holds_replicate (n := 0) (zeros_of_fixed widths wellFormed.1 head)
                (by rw [Nat.zero_add]; exact Nat.le_mul_of_pos_left _ short)
            have inData := place.end_le
            rw [List.length_replicate] at inData
            have room := kind.wordSize_pos.trans_le
              (wordSize_le_staticLength kind valid.tail.2.2.1)
            have never : Gives (decodeStatic kind data inner
                (advance offset (payload.items.length * stride kind inner)))
                (· ≠ zeroToken kind inner) := by
              rw [stride_eq, advance_of_lt (by omega)]
              exact gives_vacant (vacant_of_zeros valid.tail addressable place) tailed
                valid.tail.2.2.1 (front inner)
            rw [decodeStatic]
            refine Decoder.gives_elements_ne inside never ?_
            rw [List.getElem?_append_right (by rw [List.length_map, pairs.length_eq]),
              List.length_map, pairs.length_eq, Nat.sub_self, List.getElem?_replicate,
              if_pos (pairs.length_eq ▸ short)]
      · obtain ⟨i, found⟩ := List.getElem?_of_mem member
        obtain ⟨token, at_i, given⟩ := exists_getElem? pairs found
        have inside : i < payload.items.length := (List.getElem?_eq_some_iff.mp found).1
        have there : (tokens.map (Token.fill kind inner) ++ List.replicate
            (dim.missing payload.items.length) (zeroToken kind inner))[i]? =
            some (token.fill kind inner) := by
          rw [List.getElem?_append_left (by rwa [List.length_map, ← pairs.length_eq]),
            List.getElem?_map, at_i, Option.map_some]
        have never {first next : Nat}
            (heads : Holds data first
              (Part.sequence (Part.ofPayload kind inner) payload.items next).head)
            (contents : Holds data next
              (Part.sequence (Part.ofPayload kind inner) payload.items next).content) :
            Gives (decodeStatic kind data inner (advance first (i * stride kind inner)))
              (· ≠ token.fill kind inner) := by
          obtain ⟨start, head, content⟩ := holds_of_sequence widths heads contents found
          have inData := head.end_le
          rw [stride_eq, advance_of_lt (by omega)]
          exact ih valid.tail (wellFormed.2 item member) gap given head content
        cases dim with
        | fixed length =>
            rw [Part.ofPayload_fixed wellFormed.1] at head content
            rw [decodeStatic]
            exact Decoder.gives_elements_ne (Nat.lt_of_lt_of_le inside wellFormed.1)
              (never (holds_fill head) content) there
        | dynamic =>
            obtain ⟨pointer, count, first, next, heads, contents⟩ :=
              elements_of_dynamic addressable valid.tail widths head content
            rw [decodeStatic, pointer, count, first]
            refine Decoder.Gives.bind (P := fun _ => True) (fun _ _ _ _ => trivial) fun _ _ => ?_
            exact Decoder.gives_elements_ne inside (never heads contents) there

theorem Value.decode_fill_iff {value : Value} {given : Token} (wellFormed : value.WellFormed)
    (addressable : value.encode.length < Word.positionBound) (h : value.toToken = .ok given) :
    value.type.decode value.encode 0 = .ok (given.fill value.type.kind value.type.dims) ↔
      ¬ (value.payload.HasGap value.type.kind value.type.dims ∧
        value.payload.Leads value.type.dims) := by
  have valid := value.type.valid
  obtain ⟨head, content⟩ := holds_encode wellFormed
  constructor
  · rintro decoded ⟨gap, leads⟩
    obtain ⟨rest, first, enough⟩ :=
      Part.first_of_leads wellFormed gap.tailed leads value.staticLength
    have pointer := head
    rw [part, first] at pointer
    have inside := content.end_le
    rw [part] at inside
    have positive : 0 < value.staticLength :=
      value.type.kind.wordSize_pos.trans_le (wordSize_le_staticLength _ valid.2.2.1)
    have front (dims : List Dim) : ¬ FrontBlank value.type.kind value.encode dims :=
      not_frontBlank (Bytes.holds_append pointer).1 positive (by omega) addressable
    exact (gives_gap valid wellFormed gap front addressable h head content).run'_imp decoded rfl
  · intro sound
    refine decode_fill_of_stands wellFormed (fun gap => ?_) addressable ⟨_, head, content⟩ h
    obtain ⟨rest, zeros⟩ := Part.zeros_of_not_leads valid wellFormed
      (fun leads => sound ⟨gap, leads⟩) value.staticLength
    rw [part, zeros] at head
    exact readPosition_of_zeros (Bytes.holds_append head).1

/-- Missing items are read back as zero values, except where one with a tail is missing while the
first one of all is there. -/
theorem decode_encode_gaps {ty : Ty} {token : Token} {value : Value}
    (built : Value.ofToken ty token = .ok value) (lossless : ty.kind.isFixedPoint = false)
    (addressable : value.encode.length < Word.positionBound) :
    ∃ given, value.toToken = .ok given ∧
      (ty.decode value.encode 0 = .ok (given.fill ty.kind ty.dims) ↔
        ¬ (value.payload.HasGap value.type.kind value.type.dims ∧
          value.payload.Leads value.type.dims)) := by
  have wellFormed : value.WellFormed := Value.wellFormed_of_ofToken built
  obtain ⟨payload, -, same⟩ := bind_eq_ok.mp built
  cases same
  obtain ⟨given, toToken, -⟩ := toToken_wellFormed ty.valid.1 lossless wellFormed
  exact ⟨given, toToken, Value.decode_fill_iff wellFormed addressable toToken⟩

theorem valid_twoTexts : Ty.Valid .string [.fixed 2] := by
  decide

def twoTexts : Ty :=
  ⟨.string, [.fixed 2], valid_twoTexts⟩

def noText : Value :=
  ⟨twoTexts, ([] : List Bytes)⟩

def oneText : Value :=
  ⟨twoTexts, ([[97]] : List Bytes)⟩

theorem decode_encode_gaps_two_texts :
    twoTexts.decode noText.encode 0 = .ok (.array [.string "", .string ""]) ∧
    twoTexts.decode oneText.encode 0 ≠ .ok (.array [.string "a", .string ""]) := by
  have noneBuilt : Value.ofToken twoTexts (.array []) = .ok noText := rfl
  have oneBuilt : Value.ofToken twoTexts (.array [.string "a"]) = .ok oneText := rfl
  obtain ⟨none, noneGiven, noneRead⟩ := decode_encode_gaps noneBuilt rfl (by decide +kernel)
  obtain ⟨one, oneGiven, oneRead⟩ := decode_encode_gaps oneBuilt rfl (by decide +kernel)
  cases noneGiven
  have same : oneText.toToken = .ok (.array [.string "a"]) := rfl
  cases same.symm.trans oneGiven
  constructor
  · refine noneRead.mpr ?_
    rintro ⟨-, first, supplied, -⟩
    cases supplied
  · intro decoded
    refine oneRead.mp decoded ⟨.inl ⟨by decide, .inl rfl⟩, ?_⟩
    exact ⟨([97] : Bytes), rfl, trivial⟩

theorem decode_encode_one_text :
    Value.ofToken twoTexts (.array [.string "a"]) = .ok oneText ∧
    ∃ text, Text.utf8 text = List.replicate 31 0 ++ [1] ∧
      twoTexts.decode oneText.encode 0 = .ok (.array [.string "a", .string text]) :=
  ⟨rfl, _, by decide, rfl⟩

end NodeProtocol.Abi
