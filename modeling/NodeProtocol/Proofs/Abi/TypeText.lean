import Mathlib.Algebra.BigOperators.Group.List.Lemmas
import Mathlib.Algebra.BigOperators.Ring.List
import Mathlib.Algebra.Order.Ring.Nat
import NodeProtocol.Abi.Ty
import NodeProtocol.Proofs.Decimal

/-!
# The texts of types

`Spells text kind dims` is the grammar of type texts, apart from any reader: a base, then
bracketed sizes, with the bounds on them.

* `Kind.ofChars?_eq_some_iff` and `readDims?_eq_some_iff`: the two readers accept the bases and the
  suffixes of the grammar.
* `parse_eq_ok_iff`: `Ty.parse` accepts exactly what the grammar spells, and gives the type that is
  spelled.
* `spells_text`: the grammar spells the text that a type prints.
-/

namespace NodeProtocol.Abi
open Text

/-! ## The grammar -/

structure Width (digits : List Char) (n : Nat) : Prop where
  numeral : Numeral digits n
  no_leading_zero : digits.head? ≠ some '0'

inductive Base : List Char → Kind → Prop
  | address : Base "address".toList .address
  | bool : Base "bool".toList .bool
  | bytes : Base "bytes".toList .bytes
  | string : Base "string".toList .string
  | real : Base "real".toList .real
  | ureal : Base "ureal".toList .ureal
  | bareInt : Base "int".toList (.int 128)
  | bareUint : Base "uint".toList (.uint 128)
  | fixedBytes {digits : List Char} {n : Nat} (width : Width digits n)
      (bounds : 1 ≤ n ∧ n ≤ 32) : Base ("bytes".toList ++ digits) (.fixedBytes n)
  | int {digits : List Char} {n : Nat} (width : Width digits n)
      (bounds : n % 8 = 0 ∧ 8 ≤ n ∧ n ≤ 128) : Base ("int".toList ++ digits) (.int n)
  | uint {digits : List Char} {n : Nat} (width : Width digits n)
      (bounds : n % 8 = 0 ∧ 8 ≤ n ∧ n ≤ 128) : Base ("uint".toList ++ digits) (.uint n)

/-- What may stand between brackets. Leading zeros are allowed here. -/
inductive Size : List Char → Dim → Prop
  | dynamic : Size [] .dynamic
  | fixed {digits : List Char} {n : Nat} (numeral : Numeral digits n) : Size digits (.fixed n)

inductive Suffixes : List Char → List Dim → Prop
  | nil : Suffixes [] []
  | cons {size rest : List Char} {dim : Dim} {dims : List Dim} (head : Size size dim)
      (tail : Suffixes rest dims) : Suffixes ('[' :: (size ++ ']' :: rest)) (dim :: dims)

def Dim.length? : Dim → Option Nat
  | dynamic => none
  | fixed length => some length

/-- The text is a base and then the suffixes, of which the last one is the outermost dimension. -/
structure Spells (text : List Char) (kind : Kind) (dims : List Dim) : Prop where
  parts : ∃ base suffixes, text = base ++ suffixes ∧ Base base kind ∧ Suffixes suffixes dims.reverse
  depth : dims.length ≤ 16
  lengths : ∀ n, Dim.fixed n ∈ dims → 1 ≤ n ∧ n < 2 ^ 64
  product : (dims.filterMap Dim.length?).prod ≤ 2 ^ 20

variable {text digits size rest : List Char} {kind : Kind} {dim : Dim} {dims : List Dim} {n : Nat}

/-! ## Bases -/

theorem width?_eq_some_iff : Kind.width? digits = some n ↔ Width digits n := by
  rw [Kind.width?]
  split
  case isTrue zero =>
    simp only [reduceCtorEq, false_iff]
    exact fun width => width.no_leading_zero zero
  case isFalse other =>
    rw [decimalValue?_eq_some_iff]
    exact ⟨fun numeral => ⟨numeral, other⟩, Width.numeral⟩

theorem width_decimal (positive : 0 < n) : Width (decimal n).toList n := by
  rw [decimal, String.toList_ofList]
  exact ⟨numeral_toDigits n, head?_toDigits positive⟩

theorem isDigit_plainNames :
    ∀ plain ∈ Kind.plainNames, ∀ c ∈ plain.1.toList, c.isDigit = false := by
  simp [Kind.plainNames, Char.isDigit]

theorem find?_plainNames (word : List Char) (width : Width digits n) :
    Kind.plainNames.find? (·.1.toList = word ++ digits) = none := by
  obtain ⟨digit, rest, rfl⟩ := List.exists_cons_of_ne_nil width.numeral.ne_nil
  simp only [List.find?_eq_none, decide_eq_true_eq]
  intro plain member same
  -- No plain name has a digit in it.
  have plainDigit : digit.isDigit = false :=
    isDigit_plainNames plain member digit (by simp [same])
  cases plainDigit.symm.trans (width.numeral.isDigit digit (by simp))

theorem ofChars?_of_base (h : Base text kind) : Kind.ofChars? text = some kind := by
  cases h with
  | address | bool | bytes | string | real | ureal | bareInt | bareUint => decide
  | fixedBytes width bounds | int width bounds | uint width bounds =>
      rw [Kind.ofChars?, find?_plainNames _ width]
      simp [Kind.widthNames, after?, width?_eq_some_iff.mpr width, Kind.Valid, bounds]

theorem base_of_ofChars? (h : Kind.ofChars? text = some kind) : Base text kind := by
  rw [Kind.ofChars?] at h
  split at h
  case h_1 name kind' found =>
    cases h
    have spelled : name.toList = text := by simpa using List.find?_some found
    have member := List.mem_of_find?_eq_some found
    subst spelled
    simp only [Kind.plainNames, List.mem_cons, Prod.mk.injEq, List.not_mem_nil, or_false] at member
    obtain ⟨rfl, rfl⟩ | ⟨rfl, rfl⟩ | ⟨rfl, rfl⟩ | ⟨rfl, rfl⟩ | ⟨rfl, rfl⟩ | ⟨rfl, rfl⟩ |
      ⟨rfl, rfl⟩ | ⟨rfl, rfl⟩ := member
    exacts [.address, .bool, .bytes, .string, .real, .ureal, .bareInt, .bareUint]
  case h_2 =>
    simp only [Option.bind_eq_bind, Option.bind_eq_some_iff, Prod.exists] at h
    obtain ⟨family, digits, found, n, width, h⟩ := h
    obtain ⟨⟨name, family'⟩, member, found⟩ := List.exists_of_findSome?_eq_some found
    simp only [Option.map_eq_some_iff, Prod.mk.injEq] at found
    obtain ⟨_, after, rfl, rfl⟩ := found
    rw [after?_eq_some_iff] at after
    rw [width?_eq_some_iff] at width
    split at h
    case isFalse => cases h
    case isTrue valid =>
      cases h
      subst after
      simp only [Kind.widthNames, List.mem_cons, Prod.mk.injEq, List.not_mem_nil, or_false]
        at member
      obtain ⟨rfl, rfl⟩ | ⟨rfl, rfl⟩ | ⟨rfl, rfl⟩ := member
      exacts [.fixedBytes width valid, .uint width valid, .int width valid]

theorem ofChars?_eq_some_iff : Kind.ofChars? text = some kind ↔ Base text kind :=
  ⟨base_of_ofChars?, ofChars?_of_base⟩

namespace Base

theorem valid (h : Base text kind) : kind.Valid := by
  cases h with
  | address | bool | bytes | string | real | ureal => trivial
  | bareInt | bareUint => decide
  | fixedBytes _ bounds | int _ bounds | uint _ bounds => exact bounds

theorem not_mem (h : Base text kind) : '[' ∉ text := by
  cases h with
  | address | bool | bytes | string | real | ureal | bareInt | bareUint => decide
  | fixedBytes width _ | int width _ | uint width _ =>
      rw [List.mem_append]
      rintro (early | late)
      · revert early; decide
      · exact width.numeral.not_mem rfl late

theorem name (valid : kind.Valid) : Base kind.name.toList kind := by
  cases kind with
  | address => exact .address
  | bool => exact .bool
  | bytes => exact .bytes
  | string => exact .string
  | real => exact .real
  | ureal => exact .ureal
  | fixedBytes length =>
      rw [Kind.name, String.toList_append]
      exact .fixedBytes (width_decimal valid.1) valid
  | int bits =>
      rw [Kind.name, String.toList_append]
      exact .int (width_decimal (Nat.lt_of_lt_of_le (by decide) valid.2.1)) valid
  | uint bits =>
      rw [Kind.name, String.toList_append]
      exact .uint (width_decimal (Nat.lt_of_lt_of_le (by decide) valid.2.1)) valid

end Base

/-! ## Suffixes -/

theorem readDim?_eq_some_iff : Ty.readDim? size = some dim ↔ Size size dim := by
  rw [Ty.readDim?]
  split
  case isTrue empty =>
    rw [List.isEmpty_iff] at empty
    subst empty
    constructor
    · intro h
      cases h
      exact .dynamic
    · rintro (_ | numeral)
      · rfl
      · exact absurd rfl numeral.ne_nil
  case isFalse nonempty =>
    simp only [Option.map_eq_some_iff, decimalValue?_eq_some_iff]
    constructor
    · rintro ⟨n, numeral, rfl⟩
      exact .fixed numeral
    · rintro (_ | numeral)
      · exact absurd rfl nonempty
      · exact ⟨_, numeral, rfl⟩

theorem Size.not_mem (h : Size size dim) : ']' ∉ size := by
  cases h with
  | dynamic => exact List.not_mem_nil
  | fixed numeral => exact numeral.not_mem rfl

theorem readDims?_close {before : List Char} (inner : ']' ∉ size) :
    Ty.readDims? (some before) (size ++ ']' :: rest) = (do
      let dim ← Ty.readDim? (before.reverse ++ size)
      let dims ← Ty.readDims? none rest
      return dim :: dims) := by
  induction size generalizing before with
  | nil => simp [Ty.readDims?]
  | cons c size ih =>
      simp only [List.mem_cons, not_or] at inner
      rw [List.cons_append, Ty.readDims?, if_neg (Ne.symm inner.1), ih inner.2]
      simp

theorem readDims?_of_suffixes (h : Suffixes text dims) : Ty.readDims? none text = some dims := by
  induction h with
  | nil => rfl
  | cons head _ ih =>
      rw [Ty.readDims?, if_pos rfl, readDims?_close head.not_mem, List.reverse_nil, List.nil_append,
        readDim?_eq_some_iff.mpr head, ih]
      rfl

def Reopened (before : Option (List Char)) (text : List Char) : List Char :=
  match before with
  | none => text
  | some size => '[' :: (size.reverse ++ text)

theorem suffixes_of_readDims? {before : Option (List Char)}
    (h : Ty.readDims? before text = some dims) : Suffixes (Reopened before text) dims := by
  induction text generalizing before dims with
  | nil =>
      cases before with
      | none => cases h; exact .nil
      | some size => cases h
  | cons c text ih =>
      cases before with
      | none =>
          rw [Ty.readDims?] at h
          split at h
          case isTrue opening => subst opening; exact ih h
          case isFalse => cases h
      | some size =>
          rw [Ty.readDims?] at h
          split at h
          case isTrue closing =>
            simp only [Option.bind_eq_bind, Option.bind_eq_some_iff] at h
            obtain ⟨dim, head, dims, tail, h⟩ := h
            cases h
            subst closing
            exact .cons (readDim?_eq_some_iff.mp head) (ih tail)
          case isFalse =>
            have more := ih h
            simpa [Reopened] using more

theorem readDims?_eq_some_iff : Ty.readDims? none text = some dims ↔ Suffixes text dims :=
  ⟨suffixes_of_readDims?, readDims?_of_suffixes⟩

theorem exists_size (dim : Dim) :
    ∃ size, Size size dim ∧ dim.text.toList = '[' :: (size ++ [']']) := by
  cases dim with
  | dynamic => exact ⟨[], .dynamic, rfl⟩
  | fixed length =>
      refine ⟨_, .fixed (numeral_toDigits length), ?_⟩
      simp [Dim.text, decimal]

theorem Suffixes.texts (dims : List Dim) :
    Suffixes (String.join (dims.map Dim.text)).toList dims := by
  rw [String.toList_join]
  induction dims with
  | nil => exact .nil
  | cons dim dims ih =>
      obtain ⟨size, head, spelled⟩ := exists_size dim
      simpa [spelled] using Suffixes.cons head ih

/-! ## Bounds -/

theorem slots_eq (dims : List Dim) : Dim.slots dims = (dims.filterMap Dim.length?).prod := by
  induction dims with
  | nil => rfl
  | cons dim dims ih =>
      cases dim with
      | dynamic => rw [Dim.slots, ih]; exact Nat.one_mul _
      | fixed length => rw [Dim.slots, ih]; rfl

@[simp]
theorem mem_lengths : n ∈ dims.filterMap Dim.length? ↔ .fixed n ∈ dims := by
  simp only [List.mem_filterMap]
  constructor
  · rintro ⟨_ | length, member, ⟨⟩⟩
    exact member
  · exact fun member => ⟨_, member, rfl⟩

theorem fixed_le_slots (nonempty : .fixed 0 ∉ dims) (member : .fixed n ∈ dims) :
    n ≤ Dim.slots dims := by
  rw [slots_eq]
  apply Nat.le_of_dvd
  · exact Nat.pos_of_ne_zero (List.prod_ne_zero (mem_lengths.not.mpr nonempty))
  · exact List.dvd_prod (mem_lengths.mpr member)

theorem Spells.valid (h : Spells text kind dims) : Ty.Valid kind dims := by
  obtain ⟨base, suffixes, -, name, -⟩ := h.parts
  refine ⟨name.valid, h.depth, fun zero => ?_, ?_⟩
  · exact absurd (h.lengths 0 zero).1 (by decide)
  · rw [slots_eq]
    exact h.product

theorem spells_of_valid {base suffixes : List Char} (name : Base base kind)
    (sizes : Suffixes suffixes dims.reverse) (valid : Ty.Valid kind dims) :
    Spells (base ++ suffixes) kind dims := by
  obtain ⟨-, depth, nonempty, slots⟩ := valid
  refine ⟨⟨base, suffixes, rfl, name, sizes⟩, depth, fun n member => ⟨?_, ?_⟩, ?_⟩
  · refine Nat.pos_of_ne_zero fun zero => nonempty ?_
    rwa [← zero]
  · calc n ≤ Dim.slots dims := fixed_le_slots nonempty member
      _ ≤ maxSlots := slots
      _ < 2 ^ 64 := by decide
  · rw [← slots_eq]
    exact slots

/-! ## Reading and writing types -/

theorem Suffixes.eq_nil_or_cons (h : Suffixes text dims) :
    text = [] ∨ ∃ more, text = '[' :: more := by
  cases h with
  | nil => exact .inl rfl
  | cons => exact .inr ⟨_, rfl⟩

theorem span_spelled {base suffixes : List Char} (name : Base base kind)
    (sizes : Suffixes suffixes dims) :
    (base ++ suffixes).takeWhile (· ≠ '[') = base ∧
      (base ++ suffixes).dropWhile (· ≠ '[') = suffixes := by
  have outside : ∀ c ∈ base, decide (c ≠ '[') = true := by
    intro c member
    exact decide_eq_true fun opening => name.not_mem (opening ▸ member)
  rw [List.takeWhile_append_of_pos outside, List.dropWhile_append_of_pos outside]
  obtain rfl | ⟨more, rfl⟩ := sizes.eq_nil_or_cons <;> simp

theorem parse?_eq_some_iff {ty : Ty} :
    Ty.parse? text = some ty ↔ Spells text ty.kind ty.dims := by
  rw [Ty.parse?]
  simp only [Option.bind_eq_bind, Option.bind_eq_some_iff, ofChars?_eq_some_iff,
    readDims?_eq_some_iff]
  constructor
  · rintro ⟨kind, name, suffixes, sizes, h⟩
    split at h
    case isFalse => cases h
    case isTrue valid =>
      cases h
      rw [← List.takeWhile_append_dropWhile (p := fun c => decide (c ≠ '[')) (l := text)]
      exact spells_of_valid name (by rwa [List.reverse_reverse]) valid
  · intro h
    obtain ⟨base, suffixes, rfl, name, sizes⟩ := h.parts
    obtain ⟨before, after⟩ := span_spelled name sizes
    rw [before, after]
    refine ⟨ty.kind, name, ty.dims.reverse, sizes, ?_⟩
    simp only [List.reverse_reverse]
    rw [dif_pos h.valid]

theorem parse_eq_ok_iff {text : String} {ty : Ty} :
    Ty.parse text = .ok ty ↔ Spells text.toList ty.kind ty.dims := by
  rw [← parse?_eq_some_iff, Ty.parse]
  split
  case h_1 other h => rw [h, Except.ok.injEq, Option.some.injEq]
  case h_2 h => simp [h]

theorem parse_eq_error {text : String} (h : ∀ ty, Ty.parse text ≠ .ok ty) :
    Ty.parse text = .error (.invalidType text) := by
  revert h
  rw [Ty.parse]
  split
  case h_1 ty _ => exact fun h => absurd rfl (h ty)
  case h_2 => exact fun _ => rfl

theorem spells_text (ty : Ty) : Spells ty.text.toList ty.kind ty.dims := by
  rw [Ty.text, renderType, String.toList_append]
  exact spells_of_valid (.name ty.valid.1) (.texts _) ty.valid

theorem parse_text (ty : Ty) : Ty.parse ty.text = .ok ty :=
  parse_eq_ok_iff.mpr (spells_text ty)

/-- `Ty.parse` accepts the texts of the grammar and no other ones, and reads what they spell; every
other text is an error that carries it. A type is read back from the text it prints, so that no
two types print the same one. -/
theorem parse_iff_spells :
    (∀ (text : String) (kind : Kind) (dims : List Dim),
      (∃ ty, Ty.parse text = .ok ty ∧ ty.kind = kind ∧ ty.dims = dims) ↔
        Spells text.toList kind dims) ∧
    (∀ text : String, Ty.parse text = .error (.invalidType text) ↔
      ∀ kind dims, ¬Spells text.toList kind dims) ∧
    (∀ ty : Ty, Ty.parse ty.text = .ok ty) ∧
    Function.Injective Ty.text := by
  refine ⟨fun text kind dims => ⟨?_, fun h => ?_⟩, fun text => ⟨?_, fun h => ?_⟩, parse_text, ?_⟩
  · rintro ⟨ty, parsed, rfl, rfl⟩
    exact parse_eq_ok_iff.mp parsed
  · exact ⟨⟨kind, dims, h.valid⟩, parse_eq_ok_iff.mpr h, rfl, rfl⟩
  · intro refused kind dims h
    have accepted : Ty.parse text = .ok ⟨kind, dims, h.valid⟩ := parse_eq_ok_iff.mpr h
    cases refused.symm.trans accepted
  · exact parse_eq_error fun ty parsed => h _ _ (parse_eq_ok_iff.mp parsed)
  · intro a b same
    have read := parse_text a
    rw [same, parse_text b] at read
    exact (Except.ok.inj read).symm

end NodeProtocol.Abi
