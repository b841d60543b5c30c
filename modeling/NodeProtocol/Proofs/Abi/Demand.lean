import Mathlib.Algebra.BigOperators.Ring.List
import Mathlib.Algebra.Order.BigOperators.Group.List
import NodeProtocol.Proofs.Abi.Shape

namespace NodeProtocol.Abi

namespace Decoder

variable {α β ι : Type} {text : Prop}

/-- What a decoder does with every budget; bad text is a reason to stop only if it reads `text`. -/
def Spends (text : Prop) (decoder : Decoder α) (cost : Nat) (gives : α → Prop) : Prop :=
  ∀ budget, match decoder budget with
    | .ok (value, rest) => rest + cost = budget ∧ gives value
    | .error (.lengthOutOfBounds _) => budget < cost
    | .error .invalidUtf8 => text
    | .error _ => False

theorem spends_pure {value : α} {gives : α → Prop} (h : gives value) :
    Spends text (pure value) 0 gives :=
  fun _ => ⟨rfl, h⟩

theorem spends_claim (count stride : Nat) :
    Spends text (claim count stride) (count * stride) fun _ => True := by
  intro budget
  rw [claim]
  by_cases enough : count * stride ≤ budget
  · rw [if_pos enough]
    exact ⟨Nat.sub_add_cancel enough, trivial⟩
  · rw [if_neg enough]
    exact Nat.lt_of_not_le enough

theorem Spends.bind {decoder : Decoder α} {next : α → Decoder β} {m n : Nat} {P : α → Prop}
    {Q : β → Prop} (first : Spends text decoder m P)
    (second : ∀ a, P a → Spends text (next a) n Q) : Spends text (decoder >>= next) (m + n) Q := by
  intro budget
  have run : (decoder >>= next) budget = decoder budget >>= fun (a, rest) => next a rest := rfl
  have paid := first budget
  rw [run]
  cases outcome : decoder budget with
  | error cause =>
      rw [outcome] at paid
      cases cause with
      | lengthOutOfBounds count => exact Nat.lt_add_right n paid
      | invalidUtf8 => exact paid
      | _ => cases paid
  | ok result =>
      obtain ⟨a, rest⟩ := result
      rw [outcome] at paid
      obtain ⟨left, given⟩ := paid
      have afterwards := second a given rest
      change match next a rest with
        | .ok (value, rest) => rest + (m + n) = budget ∧ Q value
        | .error (.lengthOutOfBounds _) => budget < m + n
        | .error .invalidUtf8 => text
        | .error _ => False
      cases last : next a rest with
      | error cause =>
          rw [last] at afterwards
          cases cause with
          | lengthOutOfBounds count =>
              have short : rest < n := afterwards
              change budget < m + n
              omega
          | invalidUtf8 => exact afterwards
          | _ => cases afterwards
      | ok result =>
          rw [last] at afterwards
          refine ⟨?_, afterwards.2⟩
          have spent := afterwards.1
          omega

theorem Spends.imp {decoder : Decoder α} {cost : Nat} {P Q : α → Prop}
    (h : Spends text decoder cost P) (weaker : ∀ a, P a → Q a) : Spends text decoder cost Q := by
  have paid := h.bind fun a given => spends_pure (weaker a given)
  have same : (decoder >>= pure) = decoder := bind_pure decoder
  rwa [same, Nat.add_zero] at paid

theorem spends_mapM {items : List ι} {decoder : ι → Decoder α} {cost : ι → Nat}
    {gives : ι → α → Prop} (each : ∀ i ∈ items, Spends text (decoder i) (cost i) (gives i)) :
    Spends text (items.mapM decoder) (items.map cost).sum fun values =>
      List.Forall₂ gives items values := by
  induction items with
  | nil => exact spends_pure .nil
  | cons i items ih =>
      rw [List.forall_mem_cons] at each
      rw [List.mapM_cons, List.map_cons, List.sum_cons]
      refine each.1.bind fun value given => ?_
      rw [← Nat.add_zero (List.sum _)]
      exact (ih each.2).bind fun values rest => spends_pure (.cons given rest)

end Decoder

structure Announced where
  count : Nat
  stride : Nat

def Announced.bytes (dimension : Announced) : Nat :=
  dimension.count * dimension.stride

def announced (kind : Kind) (data : Bytes) : (dims : List Dim) → (offset : Nat) → List Announced
  | [], _ => []
  | .fixed length :: inner, offset =>
    (List.range length).flatMap fun i =>
      announced kind data inner (advance offset (i * stride kind inner))
  | .dynamic :: inner, offset =>
    let pointer := readPosition data offset kind.wordSize
    let count := readPosition data pointer kind.wordSize
    let first := advance pointer kind.wordSize
    ⟨count, stride kind inner⟩ :: (List.range count).flatMap fun i =>
      announced kind data inner (advance first (i * stride kind inner))

def demand (kind : Kind) (data : Bytes) (dims : List Dim) (offset : Nat) : Nat :=
  ((announced kind data dims offset).map Announced.bytes).sum

section Demand

variable (kind : Kind) (data : Bytes) (inner : List Dim)

def elementsDemand (first count : Nat) : Nat :=
  ((List.range count).map fun i => demand kind data inner (advance first (i * stride kind inner))).sum

theorem demand_flatMap (first count : Nat) :
    (((List.range count).flatMap fun i =>
      announced kind data inner (advance first (i * stride kind inner))).map Announced.bytes).sum =
      elementsDemand kind data inner first count := by
  rw [List.flatMap_def, List.map_flatten, List.sum_flatten, List.map_map, List.map_map]
  rfl

theorem demand_fixed (length offset : Nat) :
    demand kind data (.fixed length :: inner) offset =
      elementsDemand kind data inner offset length :=
  demand_flatMap ..

theorem demand_dynamic (offset : Nat) :
    demand kind data (.dynamic :: inner) offset =
      let pointer := readPosition data offset kind.wordSize
      let count := readPosition data pointer kind.wordSize
      count * stride kind inner +
        elementsDemand kind data inner (advance pointer kind.wordSize) count := by
  simp only
  rw [← demand_flatMap]
  rfl

end Demand

def Token.Covered (kind : Kind) (dims : List Dim) (cost : Nat) (token : Token) : Prop :=
  token.Shaped kind dims ∧
    (.dynamic ∈ dims → token.leaves.length * kind.wordSize ≤ cost)

open Decoder (Spends)

section

variable {kind : Kind} {inner : List Dim} {data : Bytes}

theorem Token.Covered.leaves_le {cost : Nat} {token : Token} (h : token.Covered kind inner cost) :
    token.leaves.length * kind.wordSize ≤ stride kind inner + cost := by
  by_cases dynamic : Dim.dynamic ∈ inner
  · exact Nat.le_add_left_of_le (h.2 dynamic)
  · rw [h.1.length_leaves dynamic, stride_eq, staticLength, Nat.mul_comm]
    exact Nat.le_add_right ..

theorem leaves_elements_le {count : Nat} {cost : Nat → Nat} {tokens : List Token} {room : Nat}
    (each : List.Forall₂ (fun i token => token.leaves.length * kind.wordSize ≤ room + cost i)
      (List.range count) tokens) :
    (Token.array tokens).leaves.length * kind.wordSize ≤
      count * room + ((List.range count).map cost).sum := by
  have bounds : (tokens.map fun token => token.leaves.length * kind.wordSize).sum ≤
      ((List.range count).map fun i => room + cost i).sum := by
    refine List.Forall₂.sum_le_sum ?_
    rw [List.forall₂_map_left_iff, List.forall₂_map_right_iff]
    exact each.flip
  rw [Token.leaves_array, List.length_flatMap, ← List.sum_map_mul_right]
  refine bounds.trans_eq ?_
  rw [List.sum_map_add, List.map_const', List.sum_replicate_nat, List.length_range]

theorem spends_elements {first count : Nat}
    (each : ∀ offset, Spends (kind = .string) (decodeStatic kind data inner offset)
      (demand kind data inner offset) (Token.Covered kind inner (demand kind data inner offset))) :
    Spends (kind = .string)
      (decodeElements (decodeStatic kind data inner) first (stride kind inner) count)
      (elementsDemand kind data inner first count) fun token =>
        ∃ tokens, token = .array tokens ∧ List.Forall₂ (fun i => Token.Covered kind inner
          (demand kind data inner (advance first (i * stride kind inner)))) (List.range count)
          tokens := by
  rw [decodeElements, ← Nat.add_zero (elementsDemand ..)]
  refine (Decoder.spends_mapM fun i _ => each _).bind fun tokens given => ?_
  exact Decoder.spends_pure ⟨tokens, rfl, given⟩

theorem shaped_elements {dim : Dim} {count : Nat} {cost : Nat → Nat} {tokens : List Token}
    (given : List.Forall₂ (fun i => Token.Covered kind inner (cost i)) (List.range count) tokens)
    (filled : dim.IsFilled count) : (Token.array tokens).Shaped kind (dim :: inner) := by
  have length := given.length_eq
  rw [List.length_range] at length
  refine ⟨length ▸ filled, ?_⟩
  intro token member
  obtain ⟨i, -, covered⟩ := exists_of_mem_right given member
  exact covered.1

end

theorem spends_decodeStatic {kind : Kind} (valid : kind.Valid) (data : Bytes) (dims : List Dim)
    (offset : Nat) :
    Spends (kind = .string) (decodeStatic kind data dims offset) (demand kind data dims offset)
      (Token.Covered kind dims (demand kind data dims offset)) := by
  -- Only a dynamic dimension claims anything, and what it claims covers its elements.
  induction dims generalizing offset with
  | nil =>
      intro budget
      rw [decodeStatic]
      rcases Kind.decode_cases valid data
          (if kind.isDynamic then readPosition data offset kind.wordSize else offset) with
        ⟨token, decoded, owns⟩ | ⟨text, refused⟩
      · rw [decoded]
        exact ⟨rfl, owns, nofun⟩
      · rw [refused]
        exact text
  | cons dim inner ih =>
      cases dim with
      | fixed length =>
          rw [demand_fixed]
          refine (spends_elements ih).imp ?_
          rintro _ ⟨tokens, rfl, given⟩
          refine ⟨shaped_elements given rfl, fun dynamic => ?_⟩
          have inside : Dim.dynamic ∈ inner := by simpa using dynamic
          have total := leaves_elements_le (given.imp fun _ _ covered =>
            (covered.2 inside).trans (Nat.le_add_left _ 0))
          rwa [Nat.mul_zero, Nat.zero_add] at total
      | dynamic =>
          rw [demand_dynamic]
          refine (Decoder.spends_claim _ _).bind fun _ _ => (spends_elements ih).imp ?_
          rintro _ ⟨tokens, rfl, given⟩
          exact ⟨shaped_elements given trivial, fun _ =>
            leaves_elements_le (given.imp fun i token covered => covered.leaves_le)⟩

theorem Ty.decode_cases (ty : Ty) (data : Bytes) (offset : Nat) :
    (∃ token, ty.decode data offset = .ok token ∧
      demand ty.kind data ty.dims offset ≤ data.length ∧
      token.Covered ty.kind ty.dims (demand ty.kind data ty.dims offset)) ∨
    (∃ count, ty.decode data offset = .error (.lengthOutOfBounds count) ∧
      data.length < demand ty.kind data ty.dims offset) ∨
    ty.kind = .string ∧ ty.decode data offset = .error .invalidUtf8 := by
  have paid := spends_decodeStatic ty.valid.1 data ty.dims offset data.length
  have run : ty.decode data offset =
      Prod.fst <$> decodeStatic ty.kind data ty.dims offset data.length := rfl
  rw [run]
  cases outcome : decodeStatic ty.kind data ty.dims offset data.length with
  | ok result =>
      rw [outcome] at paid
      exact .inl ⟨result.1, rfl, paid.1 ▸ Nat.le_add_left .., paid.2⟩
  | error cause =>
      rw [outcome] at paid
      cases cause with
      | lengthOutOfBounds count => exact .inr (.inl ⟨count, rfl, paid⟩)
      | invalidUtf8 => exact .inr (.inr ⟨paid, rfl⟩)
      | _ => cases paid

theorem decode_within_demand (ty : Ty) (data : Bytes) (offset : Nat) :
    (∃ token, ty.decode data offset = .ok token ∧
      demand ty.kind data ty.dims offset ≤ data.length ∧
      (.dynamic ∈ ty.dims → token.leaves.length * ty.wordSize ≤ data.length)) ∨
    (∃ count, ty.decode data offset = .error (.lengthOutOfBounds count) ∧
      data.length < demand ty.kind data ty.dims offset) ∨
    ty.kind = .string ∧ ty.decode data offset = .error .invalidUtf8 := by
  refine (ty.decode_cases data offset).imp_left ?_
  rintro ⟨token, decoded, within, covered⟩
  exact ⟨token, decoded, within, fun dynamic => (covered.2 dynamic).trans within⟩

end NodeProtocol.Abi
