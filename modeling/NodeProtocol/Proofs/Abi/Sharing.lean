import Mathlib.Algebra.BigOperators.Group.Finset.Piecewise
import Mathlib.Algebra.Order.BigOperators.Group.Finset
import Mathlib.Order.Interval.Finset.Nat
import NodeProtocol.Proofs.Abi.Demand
import NodeProtocol.Proofs.Abi.Regions
import NodeProtocol.Proofs.Abi.Vacant

/-!
# Texts that pointers share

The budget pays for the elements of dynamic dimensions. What a text or a byte string holds is
copied out of the data free of charge, once for every pointer that leads to it.

* `scalarOffsets` lists where decoding comes to a scalar, wherever the pointers lead, and `contents`
  the regions of the data that the scalars behind them are copied from.
* `sum_length_le`: regions inside the data, with no more than so many of them over one byte, are
  together at most that many times as long as the data.
* `folded` lets every element of an array point to one and the same text, and `decode_folded` reads
  it as many times as there are pointers.
* `decode_sharing`: all that a token holds is no more than the data if no two of its texts share a
  byte, and it can be as much as folded pointers make of it otherwise.
-/

namespace NodeProtocol.Abi

open Bytes (Holds)

/-! ## Regions that overlap -/

namespace Region

instance (region : Region) (position : Nat) : Decidable (region.Contains position) :=
  inferInstanceAs (Decidable (_ ∧ _))

def Inside (region : Region) (size : Nat) : Prop :=
  region.length = 0 ∨ region.stop ≤ size

def read (region : Region) (data : Bytes) : Bytes :=
  (data.drop region.start).take region.length

variable {region : Region} {size : Nat}

theorem Inside.length_read {data : Bytes} (h : region.Inside data.length) :
    (region.read data).length = region.length := by
  rw [Inside, stop] at h
  rw [read, List.length_take, List.length_drop]
  omega

theorem Inside.length_eq (h : region.Inside size) :
    region.length = ∑ position ∈ Finset.range size, if region.Contains position then 1 else 0 := by
  have contained : (Finset.range size).filter region.Contains =
      Finset.Ico region.start region.stop := by
    ext position
    rw [Inside, stop] at h
    rw [Finset.mem_filter, Finset.mem_range, Finset.mem_Ico, Contains, stop]
    omega
  rw [← Finset.card_filter, contained, Nat.card_Ico, stop, Nat.add_sub_cancel_left]

end Region

/-- No byte lies in more than `times` of the regions. -/
def SharedAtMost (times : Nat) (regions : List Region) : Prop :=
  ∀ position, regions.countP (·.Contains position) ≤ times

theorem sharedAtMost_of_length_le {regions : List Region} {times : Nat}
    (h : regions.length ≤ times) : SharedAtMost times regions :=
  fun _ => List.countP_le_length.trans h

theorem sum_length_eq {regions : List Region} {size : Nat}
    (inside : ∀ region ∈ regions, region.Inside size) :
    (regions.map Region.length).sum =
      ∑ position ∈ Finset.range size, regions.countP (·.Contains position) := by
  induction regions with
  | nil => simp
  | cons region regions ih =>
      rw [List.forall_mem_cons] at inside
      simp only [List.countP_cons, decide_eq_true_eq, Finset.sum_add_distrib]
      rw [List.map_cons, List.sum_cons, ih inside.2, ← inside.1.length_eq, Nat.add_comm]

theorem sum_length_le {regions : List Region} {size times : Nat}
    (inside : ∀ region ∈ regions, region.Inside size) (shared : SharedAtMost times regions) :
    (regions.map Region.length).sum ≤ times * size := by
  rw [sum_length_eq inside, Nat.mul_comm]
  have total := Finset.sum_le_card_nsmul (Finset.range size) _ times fun position _ =>
    shared position
  rwa [Finset.card_range, Nat.nsmul_eq_mul] at total

/-! ## What a token holds -/

def Token.content : Token → Bytes
  | bytes data => data
  | string text => Text.utf8 text
  | _ => []

def Token.contentLength (token : Token) : Nat :=
  (token.leaves.map (·.content.length)).sum

theorem Kind.content_of_decode {kind : Kind} {data : Bytes} {offset : Nat} {token : Token}
    (dynamic : kind.isDynamic) (h : kind.decode data offset = .ok token) :
    token.content = (readData? data offset kind.wordSize).getD [] := by
  cases kind with
  | bytes =>
      cases h
      rfl
  | string =>
      rw [decode, textToken] at h
      split at h
      case h_1 text read =>
        cases h
        exact Text.ofUtf8?_eq_some_iff.mp read
      case h_2 => cases h
  | _ => cases dynamic

theorem Kind.readData?_eq_some {data text : Bytes} {offset wordSize : Nat}
    (h : readData? data offset wordSize = some text) :
    data.slice? (offset + wordSize) text.length = some text := by
  simp only [readData?, Option.bind_eq_bind, Option.bind_eq_some_iff] at h
  obtain ⟨word, -, length, -, stored⟩ := h
  rwa [Bytes.length_slice? stored]

/-- Where the data of the scalar lies whose pointer is at `offset`. -/
def contentRegion (kind : Kind) (data : Bytes) (offset : Nat) : Region :=
  let pointer := readPosition data offset kind.wordSize
  ⟨pointer + kind.wordSize, ((Kind.readData? data pointer kind.wordSize).getD []).length⟩

theorem contentRegion_spec (kind : Kind) (data : Bytes) (offset : Nat) :
    (contentRegion kind data offset).Inside data.length ∧
      (Kind.readData? data (readPosition data offset kind.wordSize) kind.wordSize).getD [] =
        (contentRegion kind data offset).read data := by
  cases found : Kind.readData? data (readPosition data offset kind.wordSize) kind.wordSize with
  | none =>
      rw [contentRegion, found]
      exact ⟨.inl rfl, rfl⟩
  | some text =>
      obtain ⟨inside, stored⟩ := Bytes.slice?_eq_some_iff.mp (Kind.readData?_eq_some found)
      rw [contentRegion, found]
      exact ⟨.inr inside, stored.symm⟩

/-! ## Scalars behind pointers -/

def scalarOffsets (kind : Kind) (data : Bytes) : (dims : List Dim) → (offset : Nat) → List Nat
  | [], offset => [offset]
  | .fixed length :: inner, offset =>
    (List.range length).flatMap fun i =>
      scalarOffsets kind data inner (advance offset (i * stride kind inner))
  | .dynamic :: inner, offset =>
    let pointer := readPosition data offset kind.wordSize
    let count := readPosition data pointer kind.wordSize
    let first := advance pointer kind.wordSize
    (List.range count).flatMap fun i =>
      scalarOffsets kind data inner (advance first (i * stride kind inner))

def contents (kind : Kind) (data : Bytes) (dims : List Dim) (offset : Nat) : List Region :=
  (scalarOffsets kind data dims offset).map (contentRegion kind data)

theorem inside_contents {kind : Kind} {data : Bytes} {dims : List Dim} {offset : Nat} :
    ∀ region ∈ contents kind data dims offset, region.Inside data.length := by
  intro region member
  obtain ⟨slot, -, rfl⟩ := List.mem_map.mp member
  exact (contentRegion_spec kind data slot).1

open Decoder (Yields Gives)

section

variable {kind : Kind} {data : Bytes} {dims inner : List Dim} {offset : Nat}

def ReadAt (kind : Kind) (data : Bytes) (offset : Nat) (token : Token) : Prop :=
  kind.decode data (if kind.isDynamic then readPosition data offset kind.wordSize else offset) =
    .ok token

theorem gives_scalars_elements {first count : Nat}
    (each : ∀ offset, Gives (decodeStatic kind data inner offset) fun token =>
      List.Forall₂ (ReadAt kind data) (scalarOffsets kind data inner offset) token.leaves) :
    Gives (decodeElements (decodeStatic kind data inner) first (stride kind inner) count)
      fun token => List.Forall₂ (ReadAt kind data)
        ((List.range count).flatMap fun i =>
          scalarOffsets kind data inner (advance first (i * stride kind inner))) token.leaves := by
  intro budget token rest run
  obtain ⟨items, rfl, given⟩ := Decoder.gives_elements (fun i _ => each _) _ _ _ run
  rw [Token.leaves_array]
  exact List.rel_flatMap given fun _ _ read => read

theorem gives_scalars (valid : kind.Valid) :
    Gives (decodeStatic kind data dims offset) fun token =>
      List.Forall₂ (ReadAt kind data) (scalarOffsets kind data dims offset) token.leaves := by
  induction dims generalizing offset with
  | nil =>
      rw [decodeStatic]
      apply Decoder.gives_lift
      intro token decoded
      have owns : kind.Owns token := by
        rcases Kind.decode_cases valid data
          (if kind.isDynamic then readPosition data offset kind.wordSize else offset) with
          ⟨other, read, owns⟩ | ⟨-, refused⟩
        · cases decoded.symm.trans read
          exact owns
        · cases decoded.symm.trans refused
      rw [owns.leaves_eq]
      exact .cons decoded .nil
  | cons dim inner ih =>
      cases dim with
      | fixed length => exact gives_scalars_elements fun _ => ih
      | dynamic =>
          refine Decoder.Gives.bind (P := fun _ => True) (fun _ _ _ _ => trivial) fun _ _ => ?_
          exact gives_scalars_elements fun _ => ih

end

theorem Ty.forall_contents {ty : Ty} {data : Bytes} {offset : Nat} {token : Token}
    (dynamic : ty.kind.isDynamic) (decoded : ty.decode data offset = .ok token) :
    List.Forall₂ (fun region leaf => leaf.content = region.read data)
      (contents ty.kind data ty.dims offset) token.leaves := by
  have scalars := (gives_scalars ty.valid.1).run'_imp decoded
  rw [contents, List.forall₂_map_left_iff]
  refine scalars.imp fun slot leaf read => ?_
  rw [ReadAt, if_pos dynamic] at read
  rw [Kind.content_of_decode dynamic read]
  exact (contentRegion_spec ty.kind data slot).2

theorem Ty.contentLength_eq {ty : Ty} {data : Bytes} {offset : Nat} {token : Token}
    (dynamic : ty.kind.isDynamic) (decoded : ty.decode data offset = .ok token) :
    token.contentLength = ((contents ty.kind data ty.dims offset).map Region.length).sum := by
  have copied := ty.forall_contents dynamic decoded
  have lengths : (contents ty.kind data ty.dims offset).map Region.length =
      token.leaves.map (·.content.length) := by
    rw [← List.forall₂_eq_eq_eq, List.forall₂_map_left_iff, List.forall₂_map_right_iff]
    refine List.forall₂_iff_zip.mpr ⟨copied.length_eq, fun {region leaf} member => ?_⟩
    rw [(List.forall₂_iff_zip.mp copied).2 member]
    exact (inside_contents region (List.of_mem_zip member).1).length_read.symm
  rw [Token.contentLength, lengths]

theorem Ty.length_leaves_le {ty : Ty} {data : Bytes} {offset : Nat} {token : Token}
    (arrays : .dynamic ∈ ty.dims) (decoded : ty.decode data offset = .ok token) :
    token.leaves.length * ty.wordSize ≤ data.length := by
  rcases ty.decode_cases data offset with
    ⟨other, read, within, covered⟩ | ⟨_, refused, -⟩ | ⟨-, refused⟩
  · cases decoded.symm.trans read
    exact (covered.2 arrays).trans within
  · cases decoded.symm.trans refused
  · cases decoded.symm.trans refused

/-! ## Folded pointers -/

theorem holds_flatten_replicate {data word : Bytes} {offset count i : Nat}
    (h : Holds data offset (List.replicate count word).flatten) (inside : i < count) :
    Holds data (offset + i * word.length) word := by
  induction count generalizing offset i with
  | zero => cases inside
  | succ count ih =>
      rw [List.replicate_succ, List.flatten_cons] at h
      obtain ⟨first, rest⟩ := Bytes.holds_append h
      cases i with
      | zero => rwa [Nat.zero_mul]
      | succ i =>
          have later := ih rest (Nat.lt_of_succ_lt_succ inside)
          rwa [Nat.add_assoc, Nat.add_comm word.length, ← Nat.succ_mul] at later

/-- An array whose elements all point to the one content behind them. -/
def folded (kind : Kind) (count : Nat) (leaf : Bytes) : Bytes :=
  Word.ofUnsigned kind.wordSize kind.wordSize ++ (Word.ofUnsigned count kind.wordSize ++
    ((List.replicate count
      (Word.ofUnsigned (count * kind.wordSize + 2 * kind.wordSize) kind.wordSize)).flatten ++
        kind.encode leaf))

section

variable (kind : Kind) (count : Nat) (leaf : Bytes)

theorem length_folded : (folded kind count leaf).length =
    count * kind.wordSize + 2 * kind.wordSize + (kind.encode leaf).length := by
  simp only [folded, List.length_append, List.length_flatten, List.map_replicate,
    List.sum_replicate_nat, Word.length_ofUnsigned kind.size_le_wordSize]
  omega

theorem holds_folded :
    let data := folded kind count leaf
    Holds data 0 (Word.ofUnsigned kind.wordSize kind.wordSize) ∧
    Holds data kind.wordSize (Word.ofUnsigned count kind.wordSize) ∧
    (∀ i < count, Holds data (2 * kind.wordSize + i * kind.wordSize)
      (Word.ofUnsigned (count * kind.wordSize + 2 * kind.wordSize) kind.wordSize)) ∧
    Holds data (count * kind.wordSize + 2 * kind.wordSize) (kind.encode leaf) := by
  have word : ∀ value, (Word.ofUnsigned value kind.wordSize).length = kind.wordSize :=
    fun value => Word.length_ofUnsigned kind.size_le_wordSize
  have whole : Holds (folded kind count leaf) 0 (folded kind count leaf) := ⟨[], [], by simp, rfl⟩
  obtain ⟨pointer, rest⟩ := Bytes.holds_append whole
  rw [word, Nat.zero_add] at rest
  obtain ⟨number, rest⟩ := Bytes.holds_append rest
  rw [word, ← Nat.two_mul] at rest
  obtain ⟨pointers, content⟩ := Bytes.holds_append rest
  refine ⟨pointer, number, fun i inside => ?_, ?_⟩
  · have element := holds_flatten_replicate pointers inside
    rwa [word] at element
  · rwa [List.length_flatten, List.map_replicate, List.sum_replicate_nat, word,
      Nat.add_comm] at content

end

theorem Kind.Owns.tokenOfLeaf_content {kind : Kind} {token : Token} (h : kind.Owns token)
    (dynamic : kind.isDynamic) :
    kind.IsLeaf token.content ∧ kind.tokenOfLeaf token.content = .ok token := by
  cases kind with
  | bytes =>
      cases token with
      | bytes data => exact ⟨trivial, rfl⟩
      | _ => cases h.variant_eq
  | string =>
      cases token with
      | string text =>
          refine ⟨⟨text, rfl⟩, ?_⟩
          rw [tokenOfLeaf, textToken, Token.content, Text.ofUtf8?_utf8]
      | _ => cases h.variant_eq
  | _ => cases dynamic

theorem yields_folded {kind : Kind} {count : Nat} {text : Token} (valid : kind.Valid)
    (dynamic : kind.isDynamic) (owns : kind.Owns text)
    (addressable : (folded kind count text.content).length < Word.positionBound) :
    Yields (decodeStatic kind (folded kind count text.content) [.dynamic] 0)
      (.array (List.replicate count text)) (count * kind.wordSize) := by
  have word := kind.size_le_wordSize
  have stride_word : stride kind [] = kind.wordSize := by
    rw [stride_eq, staticLength, Dim.slots, Nat.mul_one]
  have few : count ≤ count * kind.wordSize := Nat.le_mul_of_pos_right _ kind.wordSize_pos
  have size := length_folded kind count text.content
  obtain ⟨pointer, number, pointers, content⟩ := holds_folded kind count text.content
  have start := readPosition_of_holds pointer word (by omega)
  have announced := readPosition_of_holds number word (by omega)
  have elements : advance kind.wordSize kind.wordSize = 2 * kind.wordSize := by
    rw [advance_of_lt (by omega), Nat.two_mul]
  obtain ⟨isLeaf, token⟩ := owns.tokenOfLeaf_content dynamic
  have each : ∀ i < count, Yields (decodeStatic kind (folded kind count text.content) []
      (advance (2 * kind.wordSize) (i * kind.wordSize))) text 0 := by
    intro i inside
    have before := Nat.mul_le_mul_right kind.wordSize inside.le
    rw [decodeStatic, if_pos dynamic, advance_of_lt (by omega),
      readPosition_of_holds (pointers i inside) word (by omega)]
    apply Decoder.yields_lift
    rw [Kind.decode_of_holds valid isLeaf content addressable, token]
  rw [decodeStatic, start, announced, stride_word, elements]
  exact Yields.bind (n := 0) (Decoder.yields_claim count kind.wordSize)
    (Decoder.yields_elements_replicate each)

theorem decode_folded {ty : Ty} {count : Nat} {text : Token} (dynamic : ty.kind.isDynamic)
    (shape : ty.dims = [.dynamic]) (owns : ty.kind.Owns text)
    (addressable : (folded ty.kind count text.content).length < Word.positionBound) :
    ty.decode (folded ty.kind count text.content) 0 = .ok (.array (List.replicate count text)) := by
  have read := yields_folded ty.valid.1 dynamic owns addressable
  rw [← shape] at read
  refine read.run'_eq ?_
  rw [length_folded]
  omega

theorem contentLength_replicate {kind : Kind} {text : Token} (owns : kind.Owns text)
    (count : Nat) :
    (Token.array (List.replicate count text)).contentLength = count * text.content.length := by
  rw [Token.contentLength, Token.leaves_array, List.flatMap_replicate, owns.leaves_eq]
  simp

/-- What the texts and byte strings of a token hold is copied out of the data, each byte once for
every text it lies in. No more is copied than there is if no two texts share a byte, and never more
than the data for each of the words in it; but folded pointers make any number of copies of one
text. -/
theorem decode_sharing {ty : Ty} (dynamic : ty.kind.isDynamic) :
    (∀ (data : Bytes) (offset : Nat) (token : Token), ty.decode data offset = .ok token →
      List.Forall₂ (fun region leaf => leaf.content = region.read data)
        (contents ty.kind data ty.dims offset) token.leaves ∧
      token.contentLength = ∑ position ∈ Finset.range data.length,
        (contents ty.kind data ty.dims offset).countP (·.Contains position) ∧
      (∀ times, SharedAtMost times (contents ty.kind data ty.dims offset) →
        token.contentLength ≤ times * data.length) ∧
      (.dynamic ∈ ty.dims → token.contentLength * ty.wordSize ≤ data.length * data.length)) ∧
    ∀ (count : Nat) (text : Token), ty.dims = [.dynamic] → ty.kind.Owns text →
      (folded ty.kind count text.content).length < Word.positionBound →
      ∃ token, ty.decode (folded ty.kind count text.content) 0 = .ok token ∧
        token.contentLength = count * text.content.length ∧
        (folded ty.kind count text.content).length =
          (count + 3) * ty.wordSize + Word.roundUp text.content.length ty.wordSize := by
  constructor
  · intro data offset token decoded
    have copied := ty.forall_contents dynamic decoded
    have total := ty.contentLength_eq dynamic decoded
    have bound : ∀ times, SharedAtMost times (contents ty.kind data ty.dims offset) →
        token.contentLength ≤ times * data.length := by
      intro times shared
      rw [total]
      exact sum_length_le inside_contents shared
    refine ⟨copied, total.trans (sum_length_eq inside_contents), bound, fun arrays => ?_⟩
    have many := bound _ (sharedAtMost_of_length_le (Nat.le_refl _))
    rw [copied.length_eq] at many
    have few := ty.length_leaves_le arrays decoded
    calc token.contentLength * ty.wordSize
        ≤ token.leaves.length * data.length * ty.wordSize := Nat.mul_le_mul_right _ many
      _ = token.leaves.length * ty.wordSize * data.length := Nat.mul_right_comm ..
      _ ≤ data.length * data.length := Nat.mul_le_mul_right _ few
  · intro count text shape owns addressable
    refine ⟨_, decode_folded dynamic shape owns addressable, contentLength_replicate owns count, ?_⟩
    rw [length_folded, Kind.length_encode_dynamic _ dynamic, Ty.wordSize]
    simp only [Nat.add_mul]
    omega

theorem valid_byteStrings : Ty.Valid .bytes [.dynamic] := by
  decide

def byteStrings : Ty :=
  ⟨.bytes, [.dynamic], valid_byteStrings⟩

def sixtyFour : Token :=
  .bytes (List.replicate 64 7)

theorem decode_sharing_one_pointer :
    byteStrings.decode (folded .bytes 1 sixtyFour.content) 0 = .ok (.array [sixtyFour]) ∧
    (Token.array [sixtyFour]).contentLength ≤ (folded .bytes 1 sixtyFour.content).length ∧
    ∃ token, byteStrings.decode (folded .bytes 2 sixtyFour.content) 0 = .ok token ∧
      token.contentLength = 128 := by
  have read : byteStrings.decode (folded .bytes 1 sixtyFour.content) 0 = .ok (.array [sixtyFour]) :=
    decode_folded rfl rfl rfl (by decide +kernel)
  have single : (contents byteStrings.kind (folded .bytes 1 sixtyFour.content)
      byteStrings.dims 0).length ≤ 1 := by
    decide +kernel
  have dynamic : byteStrings.kind.isDynamic := rfl
  have alone := ((decode_sharing dynamic).1 _ 0 _ read).2.2.1 1 (sharedAtMost_of_length_le single)
  rw [Nat.one_mul] at alone
  obtain ⟨token, decoded, total, -⟩ :=
    (decode_sharing dynamic).2 2 sixtyFour rfl rfl (by decide +kernel)
  exact ⟨read, alone, token, decoded, total⟩

theorem decode_copies_folded_thrice :
    byteStrings.decode (folded .bytes 3 sixtyFour.content) 0 =
      .ok (.array [sixtyFour, sixtyFour, sixtyFour]) ∧
    (Token.array [sixtyFour, sixtyFour, sixtyFour]).contentLength = 192 ∧
    (folded .bytes 3 sixtyFour.content).length = 160 :=
  ⟨decode_folded rfl rfl rfl (by decide +kernel), by decide +kernel, by decide +kernel⟩

end NodeProtocol.Abi
