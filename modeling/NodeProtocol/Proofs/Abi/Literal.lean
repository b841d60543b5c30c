import Mathlib.Data.Nat.Digits.Defs
import Mathlib.Tactic.Ring
import NodeProtocol.Proofs.Abi.Canonical
import NodeProtocol.Proofs.Text

namespace NodeProtocol

/-! ## Digits -/

namespace Text

def IsDigit (c : Char) (d : Nat) : Prop :=
  c = d.digitChar ∨ c = d.digitChar.toUpper

instance (c : Char) (d : Nat) : Decidable (IsDigit c d) :=
  inferInstanceAs (Decidable (_ ∨ _))

variable {radix d : Nat} {c : Char}

theorem toNat_digitChar (small : d < 16) :
    d.digitChar.toNat = (if d < 10 then 48 + d else 87 + d) ∧
      d.digitChar.toUpper.toNat = if d < 10 then 48 + d else 55 + d := by
  have all : ∀ d : Fin 16,
      d.val.digitChar.toNat = (if d.val < 10 then 48 + d.val else 87 + d.val) ∧
        d.val.digitChar.toUpper.toNat = if d.val < 10 then 48 + d.val else 55 + d.val := by decide
  exact all ⟨d, small⟩

theorem isDigit_iff (small : d < 16) :
    IsDigit c d ↔
      c.toNat = 48 + d ∧ d < 10 ∨ c.toNat = 87 + d ∧ 10 ≤ d ∨ c.toNat = 55 + d ∧ 10 ≤ d := by
  obtain ⟨lower, upper⟩ := toNat_digitChar small
  rw [IsDigit, ← Char.toNat_inj, ← Char.toNat_inj (d := d.digitChar.toUpper), lower, upper]
  split <;> omega

theorem digitValue?_eq_some_iff (small : radix ≤ 16) :
    digitValue? radix c = some d ↔ d < radix ∧ IsDigit c d := by
  have order (a b : Char) : a ≤ b ↔ a.toNat ≤ b.toNat := Iff.rfl
  have codes : '0'.toNat = 48 ∧ '9'.toNat = 57 ∧ 'a'.toNat = 97 ∧ 'z'.toNat = 122 ∧
      'A'.toNat = 65 ∧ 'Z'.toNat = 90 := by decide
  simp only [digitValue?, Option.ite_none_right_eq_some, Option.some.injEq]
  by_cases inside : d < radix
  · rw [isDigit_iff (by omega)]
    simp only [order, codes]
    split
    · omega
    · split
      · omega
      · split <;> omega
  · omega

end Text

namespace Abi

open List (Forall₂)
open Text (IsDigit)

/-! ## Literals -/

namespace Numeral

def Denotes (radix : Nat) (text : List Char) (n : Nat) : Prop :=
  text ≠ [] ∧ ∃ digits, Forall₂ (fun c d => d < radix ∧ IsDigit c d) text digits ∧
    n = Nat.ofDigits radix digits.reverse

def Run (radix : Nat) (text : List Char) (n : Nat) : Prop :=
  ∃ digits, Denotes radix digits n ∧ (text = digits ∨ text = '+' :: digits)

inductive Magnitude : List Char → Nat → Prop
  | decimal {text : List Char} {n : Nat} (run : Run 10 text n) : Magnitude text n
  | hexadecimal {text : List Char} {n : Nat} (run : Run 16 text n) :
      Magnitude ('0' :: 'x' :: text) n

/-- A magnitude, behind a minus sign if it is to be negated, with blanks around it. -/
def Literal (negative : Bool) (n : Nat) (text : String) : Prop :=
  ∃ magnitude, Magnitude magnitude n ∧
    Text.Padded ((if negative then ['-'] else []) ++ magnitude) text.toList

variable {radix n : Nat} {text : List Char}

theorem Denotes.forall {p : Char → Prop} (h : Denotes radix text n) (small : radix ≤ 16)
    (digits : ∀ d < 16, p d.digitChar ∧ p d.digitChar.toUpper) : ∀ c ∈ text, p c := by
  obtain ⟨-, values, each, -⟩ := h
  intro c member
  obtain ⟨i, here⟩ := List.getElem?_of_mem member
  obtain ⟨d, -, inside, rfl | rfl⟩ := exists_getElem? each here
  · exact (digits d (by omega)).1
  · exact (digits d (by omega)).2

/-! ## Reading digits -/

theorem readDigits_of_digits {value : Nat} {digits : List Nat} (small : radix ≤ 16)
    (each : Forall₂ (fun c d => d < radix ∧ IsDigit c d) text digits)
    (room : value < Word.modulus) :
    readDigits radix value text =
      if value * radix ^ text.length + Nat.ofDigits radix digits.reverse < Word.modulus then
        .ok (value * radix ^ text.length + Nat.ofDigits radix digits.reverse)
      else .error .tooLarge := by
  induction each generalizing value with
  | nil => simp [readDigits, room]
  | @cons c d text digits digit each ih =>
      have sum : value * radix ^ (c :: text).length + Nat.ofDigits radix (d :: digits).reverse =
          (radix * value + d) * radix ^ text.length + Nat.ofDigits radix digits.reverse := by
        rw [List.reverse_cons, Nat.ofDigits_append, List.length_reverse, ← each.length_eq,
          Nat.ofDigits_singleton, List.length_cons, pow_succ]
        ring
      rw [readDigits, (Text.digitValue?_eq_some_iff small).mpr digit, sum]
      simp only
      by_cases fits : radix * value + d < Word.modulus
      · rw [if_pos fits, ih fits]
      · -- The digits that follow make the number no smaller.
        have grows : radix * value + d ≤ (radix * value + d) * radix ^ text.length :=
          Nat.le_mul_of_pos_right _ (Nat.pow_pos (by omega))
        rw [if_neg fits, if_neg (by omega)]

theorem readDigits_of_denotes (small : radix ≤ 16) (h : Denotes radix text n) :
    readDigits radix 0 text = if n < Word.modulus then .ok n else .error .tooLarge := by
  obtain ⟨-, digits, each, rfl⟩ := h
  have read := readDigits_of_digits small each (by decide : 0 < Word.modulus)
  rwa [Nat.zero_mul, Nat.zero_add] at read

theorem digits_of_readDigits {value : Nat} (small : radix ≤ 16)
    (read : readDigits radix value text = .ok n) :
    ∃ digits, Forall₂ (fun c d => d < radix ∧ IsDigit c d) text digits := by
  induction text generalizing value with
  | nil => exact ⟨[], .nil⟩
  | cons c text ih =>
      rw [readDigits] at read
      split at read
      · cases read
      · rename_i d digit
        split at read
        · obtain ⟨digits, each⟩ := ih read
          exact ⟨d :: digits, .cons ((Text.digitValue?_eq_some_iff small).mp digit) each⟩
        · cases read

theorem denotes_of_readDigits (small : radix ≤ 16) (nonempty : text ≠ [])
    (read : readDigits radix 0 text = .ok n) : Denotes radix text n := by
  obtain ⟨digits, each⟩ := digits_of_readDigits small read
  have denotes : Denotes radix text (Nat.ofDigits radix digits.reverse) :=
    ⟨nonempty, digits, each, rfl⟩
  rw [readDigits_of_denotes small denotes] at read
  split at read
  · cases read
    exact denotes
  · cases read

/-! ## Reading magnitudes -/

theorem readMagnitude_of_run (small : radix ≤ 16) (h : Run radix text n) :
    readMagnitude radix text = if n < Word.modulus then .ok n else .error .tooLarge := by
  obtain ⟨digits, denotes, shown⟩ := h
  have unsigned : '+' ∉ digits := fun plus =>
    denotes.forall (p := (· ≠ '+')) small (by decide) '+' plus rfl
  have behind : (Text.after? ['+'] text).getD text = digits := by
    rcases shown with rfl | rfl
    · rw [Text.after?_of_not_mem List.mem_cons_self unsigned, Option.getD_none]
    · rw [Text.after?_eq_some_iff.mpr (List.singleton_append).symm, Option.getD_some]
  rw [readMagnitude, behind, if_neg (by simpa using denotes.1)]
  exact readDigits_of_denotes small denotes

theorem run_of_readMagnitude (small : radix ≤ 16) (read : readMagnitude radix text = .ok n) :
    Run radix text n := by
  rw [readMagnitude] at read
  split at read
  · cases read
  · rename_i nonempty
    refine ⟨_, denotes_of_readDigits small (by simpa using nonempty) read, ?_⟩
    cases after : Text.after? ['+'] text with
    | none => exact .inl rfl
    | some rest => exact .inr (Text.after?_eq_some_iff.mp after)

theorem Run.forall {p : Char → Prop} (h : Run radix text n) (small : radix ≤ 16) (plus : p '+')
    (digits : ∀ d < 16, p d.digitChar ∧ p d.digitChar.toUpper) : ∀ c ∈ text, p c := by
  obtain ⟨run, denotes, rfl | rfl⟩ := h
  · exact denotes.forall small digits
  · exact List.forall_mem_cons.mpr ⟨plus, denotes.forall small digits⟩

theorem Magnitude.forall {p : Char → Prop} (h : Magnitude text n) (plus : p '+') (mark : p 'x')
    (digits : ∀ d < 16, p d.digitChar ∧ p d.digitChar.toUpper) : ∀ c ∈ text, p c := by
  cases h with
  | decimal run => exact run.forall (by decide) plus digits
  | hexadecimal run =>
      have zero : p '0' := (digits 0 (by decide)).1
      exact List.forall_mem_cons.mpr
        ⟨zero, List.forall_mem_cons.mpr ⟨mark, run.forall (by decide) plus digits⟩⟩

theorem magnitude_of_spelled (h : Magnitude text n) :
    magnitude text =
      if n < Word.modulus then .ok n else .error (.overflow (.number (String.ofList text))) := by
  cases h with
  | decimal run =>
      have unmarked : 'x' ∉ text := fun mark =>
        run.forall (p := (· ≠ 'x')) (by decide) (by decide) (by decide) 'x' mark rfl
      rw [magnitude, Text.after?_of_not_mem (show 'x' ∈ ['0', 'x'] by decide) unmarked]
      simp only [readMagnitude_of_run (by decide) run]
      split <;> rfl
  | @hexadecimal text _ run =>
      have marked : Text.after? ['0', 'x'] ('0' :: 'x' :: text) = some text :=
        Text.after?_eq_some_iff.mpr rfl
      rw [magnitude, marked]
      simp only [readMagnitude_of_run (by decide) run]
      split <;> rfl

theorem spelled_of_magnitude (read : magnitude text = .ok n) : Magnitude text n := by
  have inner := mapError_eq_ok.mp read
  split at inner
  · rename_i digits after
    rw [Text.after?_eq_some_iff.mp after]
    exact .hexadecimal (run_of_readMagnitude (by decide) inner)
  · exact .decimal (run_of_readMagnitude (by decide) inner)

/-! ## Reading texts -/

theorem trim_of_literal {negative : Bool} {magnitude whole : List Char} (h : Magnitude magnitude n)
    (padded : Text.Padded ((if negative then ['-'] else []) ++ magnitude) whole) :
    Text.trim whole = (if negative then ['-'] else []) ++ magnitude := by
  have inside : ∀ c ∈ (if negative then ['-'] else []) ++ magnitude, Text.isBlank c = false := by
    refine List.forall_mem_append.mpr
      ⟨?_, h.forall (p := (Text.isBlank · = false)) (by decide) (by decide) (by decide)⟩
    cases negative with
    | false => exact List.forall_mem_nil _
    | true => exact List.forall_mem_singleton.mpr rfl
  exact padded.trim_eq (fun c first => inside c (List.mem_of_mem_head? first))
    fun c last => inside c (List.mem_of_mem_getLast? last)

theorem Magnitude.minus_not_mem (h : Magnitude text n) : '-' ∉ text := fun minus =>
  h.forall (p := (· ≠ '-')) (by decide) (by decide) (by decide) '-' minus rfl

theorem unsigned_of_literal {text : String} (h : Literal false n text) :
    (n < Word.modulus ∧ unsigned text = .ok n) ∨
      (Word.modulus ≤ n ∧ ∃ cause, unsigned text = .error (.overflow cause)) := by
  obtain ⟨core, spelled, padded⟩ := h
  have trimmed : Text.trim text.toList = core := trim_of_literal spelled padded
  have first : core.head? ≠ some '-' := fun minus =>
    spelled.minus_not_mem (List.mem_of_mem_head? minus)
  have read : unsigned text = magnitude core := by
    rw [unsigned, trimmed]
    exact if_neg first
  rw [read, magnitude_of_spelled spelled]
  rcases Nat.lt_or_ge n Word.modulus with small | large
  · exact .inl ⟨small, if_pos small⟩
  · exact .inr ⟨large, _, if_neg (Nat.not_lt.mpr large)⟩

theorem unsigned_of_negative {text : String} (h : Literal true n text) :
    ∃ shown, unsigned text = .error (.negativeUnsigned shown) := by
  obtain ⟨core, spelled, padded⟩ := h
  have trimmed : Text.trim text.toList = '-' :: core := trim_of_literal spelled padded
  rw [unsigned, trimmed]
  exact ⟨_, if_pos rfl⟩

theorem literal_of_unsigned {text : String} (read : unsigned text = .ok n) :
    Literal false n text := by
  rw [unsigned] at read
  split at read
  · cases read
  · exact ⟨_, spelled_of_magnitude read, Text.padded_trim text.toList⟩

theorem signed_of_literal {negative : Bool} {text : String} {z : Int}
    (h : Literal negative n text) (value : z = if negative then -(n : Int) else n) :
    ((-Word.signedBound ≤ z ∧ z < Word.signedBound) ∧ signed text = .ok z) ∨
      (¬ (-Word.signedBound ≤ z ∧ z < Word.signedBound) ∧
        ∃ cause, signed text = .error (.overflow cause)) := by
  obtain ⟨core, spelled, padded⟩ := h
  have trimmed := trim_of_literal spelled padded
  have bounds : 0 < Word.signedBound ∧ Word.signedBound < Word.modulus := by decide
  have read := magnitude_of_spelled spelled
  cases negative with
  | true =>
      have value : z = -n := value
      have after : Text.after? ['-'] (Text.trim text.toList) = some core :=
        Text.after?_eq_some_iff.mpr trimmed
      rw [signed, after]
      simp only [read]
      rcases Nat.lt_or_ge n Word.modulus with small | large
      · rw [if_pos small]
        -- The least number is in range although its magnitude is not.
        by_cases fits : n ≤ Word.signedBound
        · exact .inl ⟨by omega, value ▸ if_pos fits⟩
        · exact .inr ⟨by omega, _, if_neg fits⟩
      · rw [if_neg (by omega)]
        exact .inr ⟨by omega, _, rfl⟩
  | false =>
      have value : z = n := value
      have after : Text.after? ['-'] (Text.trim text.toList) = none := by
        rw [trimmed]
        exact Text.after?_of_not_mem List.mem_cons_self spelled.minus_not_mem
      rw [signed, after, trimmed]
      simp only [Bool.false_eq_true, if_false, List.nil_append, read]
      rcases Nat.lt_or_ge n Word.modulus with small | large
      · rw [if_pos small]
        by_cases fits : n < Word.signedBound
        · exact .inl ⟨by omega, value ▸ if_pos fits⟩
        · exact .inr ⟨by omega, _, if_neg fits⟩
      · rw [if_neg (by omega)]
        exact .inr ⟨by omega, _, rfl⟩

theorem literal_of_signed {text : String} {z : Int} (read : signed text = .ok z) :
    ∃ negative n, Literal negative n text ∧ z = if negative then -(n : Int) else n := by
  rw [signed] at read
  cases after : Text.after? ['-'] (Text.trim text.toList) with
  | some core =>
      rw [after] at read
      obtain ⟨n, magnitude, rest⟩ := bind_eq_ok.mp read
      split at rest
      · cases rest
        have whole := Text.padded_trim text.toList
        rw [Text.after?_eq_some_iff.mp after] at whole
        exact ⟨true, n, ⟨core, spelled_of_magnitude magnitude, whole⟩, rfl⟩
      · cases rest
  | none =>
      rw [after] at read
      obtain ⟨n, magnitude, rest⟩ := bind_eq_ok.mp read
      split at rest
      · cases rest
        exact ⟨false, n, ⟨_, spelled_of_magnitude magnitude, Text.padded_trim text.toList⟩, rfl⟩
      · cases rest

end Numeral

/-! ## Forms of an integer -/

/-- A number of either sort, or a literal whose minus sign stands before negative numbers only. -/
inductive Token.Gives : Token → Int → Prop
  | int (z : Int) : Gives (.int z) z
  | uint (n : Nat) : Gives (.uint n) n
  | text {z : Int} {text : String} (literal : Numeral.Literal (decide (z < 0)) z.natAbs text) :
      Gives (.string text) z

namespace Kind

variable {bits : Nat} {z : Int} {token : Token}

theorem fits_signedBound (valid : (int bits).Valid) (fits : (int bits).Fits (.int z)) :
    -Word.signedBound ≤ z ∧ z < Word.signedBound := by
  have range : -(2 ^ (bits - 1) : Int) ≤ z ∧ z < 2 ^ (bits - 1) := fits
  have widest : (2 ^ (bits - 1) : Int) ≤ 2 ^ 127 :=
    pow_le_pow_right₀ (by decide) (by have := valid.2.2; omega)
  have bound : (Word.signedBound : Int) = 2 ^ 127 := by decide
  omega

theorem int_leafOfToken_of_gives (valid : (int bits).Valid) (h : token.Gives z) :
    (int bits).leafOfToken token = signedLeaf z bits ∨
      (¬ (int bits).Fits (.int z) ∧
        ∃ cause, (int bits).leafOfToken token = .error (.overflow cause)) := by
  cases h with
  | int => exact .inl rfl
  | uint n =>
      by_cases inside : n < Word.signedBound
      · exact .inl (if_pos inside)
      · refine .inr ⟨fun fits => inside ?_, _, if_neg inside⟩
        exact Int.ofNat_lt.mp (fits_signedBound valid fits).2
  | @text _ text literal =>
      have value : z = if decide (z < 0) then -(z.natAbs : Int) else z.natAbs := by
        simp only [decide_eq_true_eq]
        split <;> omega
      rcases Numeral.signed_of_literal literal value with ⟨-, read⟩ | ⟨outside, cause, refused⟩
      · refine .inl ?_
        rw [leafOfToken, read]
        rfl
      · refine .inr ⟨fun fits => outside (fits_signedBound valid fits), cause, ?_⟩
        rw [leafOfToken, refused]
        rfl

theorem int_leafOfToken_cases (valid : (int bits).Valid) (h : token.Gives z) :
    ((int bits).Fits (.int z) ∧ (int bits).leafOfToken token = signedLeaf z bits) ∨
      (¬ (int bits).Fits (.int z) ∧
        ∃ cause, (int bits).leafOfToken token = .error (.overflow cause)) := by
  rcases int_leafOfToken_of_gives valid h with made | refused
  · rcases signedLeaf_cases valid z with ⟨fits, -⟩ | ⟨unfit, cause, refused⟩
    · exact .inl ⟨fits, made⟩
    · exact .inr ⟨unfit, cause, made.trans refused⟩
  · exact .inr refused

theorem uint_leafOfToken_of_gives (valid : (uint bits).Valid) (nonnegative : 0 ≤ z)
    (h : token.Gives z) :
    (uint bits).leafOfToken token = unsignedLeaf z.toNat bits ∨
      (¬ (uint bits).Fits (.uint z.toNat) ∧
        ∃ cause, (uint bits).leafOfToken token = .error (.overflow cause)) := by
  cases h with
  | int => exact .inl (if_pos nonnegative)
  | uint n => exact .inl rfl
  | @text _ text literal =>
      rw [decide_eq_false (Int.not_lt.mpr nonnegative), ← Int.toNat_of_nonneg nonnegative,
        Int.natAbs_natCast] at literal
      rcases Numeral.unsigned_of_literal literal with ⟨-, read⟩ | ⟨large, cause, refused⟩
      · refine .inl ?_
        rw [leafOfToken, read]
        rfl
      · refine .inr ⟨fun fits => ?_, cause, ?_⟩
        · have fits : z.toNat < 2 ^ bits := fits
          have widest : 2 ^ bits ≤ Word.modulus := by
            rw [Word.modulus, Nat.one_shiftLeft]
            exact Nat.pow_le_pow_right (by decide) valid.2.2
          omega
        · rw [leafOfToken, refused]
          rfl

theorem uint_leafOfToken_cases (valid : (uint bits).Valid) (nonnegative : 0 ≤ z)
    (h : token.Gives z) :
    ((uint bits).Fits (.uint z.toNat) ∧
        (uint bits).leafOfToken token = unsignedLeaf z.toNat bits) ∨
      (¬ (uint bits).Fits (.uint z.toNat) ∧
        ∃ cause, (uint bits).leafOfToken token = .error (.overflow cause)) := by
  rcases uint_leafOfToken_of_gives valid nonnegative h with made | refused
  · rcases unsignedLeaf_cases valid z.toNat with ⟨fits, -⟩ | ⟨unfit, cause, refused⟩
    · exact .inl ⟨fits, made⟩
    · exact .inr ⟨unfit, cause, made.trans refused⟩
  · exact .inr refused

theorem uint_leafOfToken_of_negative (negative : z < 0) (h : token.Gives z) :
    ∃ shown, (uint bits).leafOfToken token = .error (.negativeUnsigned shown) := by
  cases h with
  | int => exact ⟨_, if_neg (Int.not_le.mpr negative)⟩
  | uint n => exact absurd negative (Int.not_lt.mpr (Int.natCast_nonneg n))
  | @text _ text literal =>
      rw [decide_eq_true negative] at literal
      obtain ⟨shown, refused⟩ := Numeral.unsigned_of_negative literal
      refine ⟨shown, ?_⟩
      rw [leafOfToken, refused]
      rfl

theorem toNat_fits_iff (nonnegative : 0 ≤ z) : (uint bits).Fits (.uint z.toNat) ↔ z < 2 ^ bits := by
  have width : ((2 ^ bits : Nat) : Int) = 2 ^ bits := Nat.cast_pow 2 bits
  rw [Fits, ← width]
  omega

theorem decode_encode_leaf {kind : Kind} {token : Token} {leaf : Bytes} (valid : kind.Valid)
    (lossless : kind.isFixedPoint = false) (static : kind.isDynamic = false)
    (variant : token.variant = kind.variant) (built : kind.leafOfToken token = .ok leaf) :
    (kind.encode leaf).length = kind.wordSize ∧ kind.decode (kind.encode leaf) 0 = .ok token := by
  have isLeaf := isLeaf_of_leafOfToken built
  have read := tokenOfLeaf_of_leafOfToken valid lossless variant built
  refine ⟨length_encode isLeaf valid static, ?_⟩
  cases kind with
  | bytes | string => cases static
  | _ => exact read

end Kind

/-- The widths are those of the protocol. What is out of range is refused in every form, however
many digits it has, and never wrapped. -/
theorem leafOfToken_of_gives {bits : Nat} (valid : bits % 8 = 0 ∧ 8 ≤ bits ∧ bits ≤ 128)
    (z : Int) :
    (-2 ^ (bits - 1) ≤ z ∧ z < 2 ^ (bits - 1) →
      ∃ leaf, (∀ token, token.Gives z → (Kind.int bits).leafOfToken token = .ok leaf) ∧
        ((Kind.int bits).encode leaf).length = 16 ∧
        (Kind.int bits).decode ((Kind.int bits).encode leaf) 0 = .ok (.int z)) ∧
    (¬ (-2 ^ (bits - 1) ≤ z ∧ z < 2 ^ (bits - 1)) → ∀ token, token.Gives z →
      ∃ cause, (Kind.int bits).leafOfToken token = .error (.overflow cause)) ∧
    (0 ≤ z ∧ z < 2 ^ bits →
      ∃ leaf, (∀ token, token.Gives z → (Kind.uint bits).leafOfToken token = .ok leaf) ∧
        ((Kind.uint bits).encode leaf).length = 16 ∧
        (Kind.uint bits).decode ((Kind.uint bits).encode leaf) 0 = .ok (.uint z.toNat)) ∧
    (z < 0 → ∀ token, token.Gives z →
      ∃ shown, (Kind.uint bits).leafOfToken token = .error (.negativeUnsigned shown)) ∧
    (0 ≤ z ∧ ¬ z < 2 ^ bits → ∀ token, token.Gives z →
      ∃ cause, (Kind.uint bits).leafOfToken token = .error (.overflow cause)) := by
  refine ⟨?_, ?_, ?_, ?_, ?_⟩
  · intro range
    have fits : (Kind.int bits).Fits (.int z) := range
    rcases Kind.signedLeaf_cases valid z with ⟨-, leaf, built⟩ | ⟨unfit, -⟩
    · have own : (Kind.int bits).leafOfToken (.int z) = .ok leaf := built
      refine ⟨leaf, fun token gives => ?_, Kind.decode_encode_leaf valid rfl rfl rfl own⟩
      rcases Kind.int_leafOfToken_cases valid gives with ⟨-, made⟩ | ⟨unfit, -⟩
      · exact made.trans built
      · exact absurd fits unfit
    · exact absurd fits unfit
  · intro outside token gives
    rcases Kind.int_leafOfToken_cases valid gives with ⟨fits, -⟩ | ⟨-, refused⟩
    · exact absurd fits outside
    · exact refused
  · rintro ⟨nonnegative, small⟩
    have fits : (Kind.uint bits).Fits (.uint z.toNat) := (Kind.toNat_fits_iff nonnegative).mpr small
    rcases Kind.unsignedLeaf_cases valid z.toNat with ⟨-, leaf, built⟩ | ⟨unfit, -⟩
    · have own : (Kind.uint bits).leafOfToken (.uint z.toNat) = .ok leaf := built
      refine ⟨leaf, fun token gives => ?_, Kind.decode_encode_leaf valid rfl rfl rfl own⟩
      rcases Kind.uint_leafOfToken_cases valid nonnegative gives with ⟨-, made⟩ | ⟨unfit, -⟩
      · exact made.trans built
      · exact absurd fits unfit
    · exact absurd fits unfit
  · intro negative token gives
    exact Kind.uint_leafOfToken_of_negative negative gives
  · rintro ⟨nonnegative, outside⟩ token gives
    rcases Kind.uint_leafOfToken_cases valid nonnegative gives with ⟨fits, -⟩ | ⟨-, refused⟩
    · exact absurd ((Kind.toNat_fits_iff nonnegative).mp fits) outside
    · exact refused

def leastText : String :=
  "\t -0x0080000000000000000000000000000000 \n"

theorem leafOfToken_leastText :
    ((128 % 8 = 0 ∧ 8 ≤ 128 ∧ 128 ≤ 128) ∧ Token.Gives (.string leastText) (-2 ^ 127)) ∧
    ∃ leaf, (Kind.int 128).leafOfToken (.string leastText) = .ok leaf ∧
      (Kind.int 128).leafOfToken (.int (-2 ^ 127)) = .ok leaf ∧
      (Kind.int 128).decode ((Kind.int 128).encode leaf) 0 = .ok (.int (-2 ^ 127)) := by
  have digits : Numeral.Denotes 16 "0080000000000000000000000000000000".toList (2 ^ 127) := by
    exact ⟨by decide, [0, 0, 8] ++ List.replicate 31 0, by decide, by decide⟩
  have gives : Token.Gives (.string leastText) (-2 ^ 127) := by
    refine .text ⟨_, .hexadecimal ⟨_, digits, .inl rfl⟩, ?_⟩
    exact ⟨['\t', ' '], [' ', '\n'], by decide, by decide, by decide⟩
  have valid : 128 % 8 = 0 ∧ 8 ≤ 128 ∧ 128 ≤ 128 := by decide
  obtain ⟨leaf, same, -, read⟩ := (leafOfToken_of_gives valid (-2 ^ 127)).1 (by decide)
  exact ⟨⟨valid, gives⟩, leaf, same _ gives, same _ (.int _), read⟩

end Abi

end NodeProtocol
