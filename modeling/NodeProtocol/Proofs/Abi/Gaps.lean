import NodeProtocol.Proofs.Abi.Vacant

namespace NodeProtocol.Abi

open Bytes (Holds)

def Dim.missing : Dim → (count : Nat) → Nat
  | dynamic, _ => 0
  | fixed length, count => length - count

def Token.fill (kind : Kind) : (dims : List Dim) → Token → Token
  | dim :: inner, .array items =>
    .array (items.map (fill kind inner) ++
      List.replicate (dim.missing items.length) (zeroToken kind inner))
  | _, token => token

theorem Token.fill_nil (kind : Kind) (token : Token) : token.fill kind [] = token := by
  cases token <;> rfl

def Payload.HasGap (kind : Kind) : (dims : List Dim) → Payload dims → Prop
  | [], _ => False
  | dim :: inner, payload =>
    (0 < dim.missing payload.items.length ∧ Tailed kind inner) ∨
      ∃ item ∈ payload.items, HasGap kind inner item

theorem Dim.IsFilled.missing_eq {dim : Dim} {count : Nat} (h : dim.IsFilled count) :
    dim.missing count = 0 := by
  cases dim with
  | dynamic => rfl
  | fixed length => exact Nat.sub_eq_zero_of_le (Nat.le_of_eq h.symm)

namespace Payload

variable {kind : Kind} {dims : List Dim} {payload : Payload dims}

theorem Full.not_hasGap (h : payload.Full dims) : ¬ payload.HasGap kind dims := by
  induction dims with
  | nil => exact id
  | cons dim inner ih =>
      rintro (⟨short, -⟩ | ⟨item, member, gap⟩)
      · rw [h.1.missing_eq] at short
        exact Nat.lt_irrefl 0 short
      · exact ih (h.2 item member) gap

theorem HasGap.tailed (h : payload.HasGap kind dims) : Tailed kind dims := by
  induction dims with
  | nil => cases h
  | cons dim inner ih =>
      have inside : Tailed kind inner := by
        rcases h with ⟨-, tailed⟩ | ⟨item, -, gap⟩
        · exact tailed
        · exact ih gap
      exact inside.imp_right (List.mem_cons_of_mem _)

theorem Full.fill_eq {token : Token} (h : payload.Full dims)
    (given : payload.toToken kind dims = .ok token) : token.fill kind dims = token := by
  induction dims generalizing token with
  | nil => exact token.fill_nil kind
  | cons dim inner ih =>
      obtain ⟨tokens, tokensOk, given⟩ := bind_eq_ok.mp given
      cases given
      have pairs := mapM_eq_ok.mp tokensOk
      have same : ∀ token ∈ tokens, token.fill kind inner = token := by
        intro token member
        obtain ⟨item, inside, given⟩ := exists_of_mem_right pairs member
        exact ih (h.2 item inside) given
      rw [Token.fill, List.map_congr_left same, List.map_id', ← pairs.length_eq, h.1.missing_eq,
        List.replicate_zero, List.append_nil]

end Payload

section

variable {kind : Kind} {data : Bytes} {dims : List Dim} {offset : Nat}

theorem readPosition_of_zeros (h : Holds data offset (List.replicate kind.wordSize 0)) :
    readPosition data offset kind.wordSize = 0 := by
  rw [← Word.ofUnsigned_zero kind.size_le_wordSize] at h
  exact readPosition_of_holds h kind.size_le_wordSize (by decide)

theorem Kind.ofWord_zeros (valid : kind.Valid) :
    kind.ofWord (List.replicate kind.wordSize 0) = kind.zero := by
  cases kind with
  | fixedBytes length =>
      rw [ofWord, Bytes.takeLast, List.length_replicate, List.drop_replicate,
        Nat.sub_sub_self (fixedBytes_le_wordSize valid), zero]
  | int bits => rw [ofWord, Word.toSigned, Word.toUnsigned_replicate_zero]; rfl
  | uint bits => rw [ofWord, Word.toUnsigned_replicate_zero]; rfl
  | real | ureal =>
      simp [ofWord, Word.toSigned, Word.toUnsigned_replicate_zero, FixedPoint.toBinary64,
        Binary64.ofRatio, zero]
  | _ => rfl

theorem vacant_of_zeros (valid : Ty.Valid kind dims)
    (addressable : data.length < Word.positionBound)
    (h : Holds data offset (List.replicate (staticLength kind dims) 0)) :
    Vacant kind data dims offset := by
  have first : Holds data offset (List.replicate kind.wordSize 0) := by
    have room := wordSize_le_staticLength kind valid.2.2.1
    exact Bytes.holds_replicate (n := 0) h (by omega)
  induction dims generalizing offset with
  | nil =>
      rw [Vacant]
      split
      case isTrue => exact readPosition_of_zeros first
      case isFalse static =>
        rw [Kind.decode_static data offset (by simpa using static), Word.read?,
          Bytes.slice?_of_holds first List.length_replicate, Option.map_some, Option.getD_some,
          Kind.ofWord_zeros valid.1]
  | cons dim inner ih =>
      cases dim with
      | fixed length =>
          intro i inside
          have room := wordSize_le_staticLength kind valid.tail.2.2.1
          have place : Holds data (offset + i * stride kind inner)
              (List.replicate (staticLength kind inner) 0) := by
            rw [staticLength_fixed] at h
            refine Bytes.holds_replicate h ?_
            rw [stride_eq, ← Nat.succ_mul]
            exact Nat.mul_le_mul_right _ inside
          have inData := place.end_le
          rw [List.length_replicate] at inData
          rw [advance_of_lt (by omega)]
          exact ih valid.tail place (Bytes.holds_replicate (n := 0) place (by omega))
      | dynamic => exact readPosition_of_zeros first

theorem frontBlank_of_zero (h : readPosition data 0 kind.wordSize = 0) :
    FrontBlank kind data dims := by
  rw [FrontBlank]
  split
  case isTrue => exact h
  case isFalse =>
    rw [readPosition] at h
    split at h
    case h_1 word found =>
      -- The word that is read as a pointer of zero is read as a length of zero as well.
      have position : Word.toPosition? word = some 0 := by
        cases read : Word.toPosition? word with
        | none => rw [read] at h; cases h
        | some value => rw [read] at h; exact congrArg some h
      rw [Kind.readData?, found]
      simp only [Option.bind_eq_bind, Option.bind_some, position]
      rw [Word.read?, Bytes.slice?]
      split <;> rfl
    case h_2 missing =>
      rw [Kind.readData?, missing]
      rfl

end

end NodeProtocol.Abi
