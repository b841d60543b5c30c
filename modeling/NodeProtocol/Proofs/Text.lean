import Mathlib.Data.List.DropRight
import NodeProtocol.Text.Blank
import NodeProtocol.Text.Split

namespace NodeProtocol.Text

variable {c separator : Char} {core text gap before rest : List Char}

def Blanks (gap : List Char) : Prop :=
  ∀ c ∈ gap, isBlank c = true

instance (gap : List Char) : Decidable (Blanks gap) :=
  decidable_of_iff (gap.all isBlank = true) List.all_eq_true

def Padded (core text : List Char) : Prop :=
  ∃ lead trail, Blanks lead ∧ Blanks trail ∧ text = lead ++ core ++ trail

theorem Padded.refl (core : List Char) : Padded core core :=
  ⟨[], [], List.forall_mem_nil _, List.forall_mem_nil _, (List.append_nil core).symm⟩

theorem Blanks.not_mem (h : Blanks gap) (other : isBlank c = false) : c ∉ gap := by
  intro member
  cases (h c member).symm.trans other

theorem padded_trim (text : List Char) : Padded (trim text) text := by
  refine ⟨text.takeWhile isBlank, (trimStart text).rtakeWhile isBlank,
    fun _ => List.mem_takeWhile_imp, fun _ => List.mem_rtakeWhile_imp, ?_⟩
  calc text = text.takeWhile isBlank ++ trimStart text := List.takeWhile_append_dropWhile.symm
    _ = text.takeWhile isBlank ++ (trim text ++ (trimStart text).rtakeWhile isBlank) :=
        congrArg _ List.rdropWhile_append_rtakeWhile.symm
    _ = _ := (List.append_assoc ..).symm

theorem trim_eq_nil_iff : trim text = [] ↔ Blanks text := by
  constructor
  · intro h
    obtain ⟨lead, trail, blankLead, blankTrail, parts⟩ := padded_trim text
    rw [parts, h, List.append_nil]
    exact List.forall_mem_append.mpr ⟨blankLead, blankTrail⟩
  · intro h
    rw [trim, trimStart, List.dropWhile_eq_nil_iff.mpr h]
    rfl

theorem dropWhile_blanks (blank : Blanks gap) (first : ∀ c ∈ rest.head?, isBlank c = false) :
    (gap ++ rest).dropWhile isBlank = rest := by
  rw [List.dropWhile_append_of_pos blank]
  cases rest with
  | nil => rfl
  | cons c rest => exact List.dropWhile_cons_of_neg (by simp [first c rfl])

theorem Padded.trim_eq (h : Padded core text) (first : ∀ c ∈ core.head?, isBlank c = false)
    (last : ∀ c ∈ core.getLast?, isBlank c = false) : trim text = core := by
  obtain ⟨lead, trail, blankLead, blankTrail, rfl⟩ := h
  cases core with
  | nil =>
      rw [List.append_nil]
      exact trim_eq_nil_iff.mpr (List.forall_mem_append.mpr ⟨blankLead, blankTrail⟩)
  | cons c core =>
      have start : trimStart (lead ++ c :: core ++ trail) = c :: core ++ trail := by
        rw [trimStart, List.append_assoc]
        exact dropWhile_blanks blankLead first
      rw [trim, start, trimEnd, List.reverse_append, dropWhile_blanks, List.reverse_reverse]
      · exact fun c member => blankTrail c (List.mem_reverse.mp member)
      · rwa [List.head?_reverse]

theorem isBlank_of_isAlphanum (h : c.isAlphanum = true) : isBlank c = false := by
  have letterOrDigit : (65 ≤ c.toNat ∧ c.toNat ≤ 90 ∨ 97 ≤ c.toNat ∧ c.toNat ≤ 122) ∨
      48 ≤ c.toNat ∧ c.toNat ≤ 57 := by
    delta Char.isAlphanum Char.isAlpha Char.isUpper Char.isLower Char.isDigit at h
    simpa [UInt32.le_iff_toNat_le] using h
  simp only [isBlank, Bool.or_eq_false_iff, Bool.and_eq_false_iff, decide_eq_false_iff_not,
    beq_eq_false_iff_ne]
  omega

theorem after?_of_not_mem {word : List Char} (member : c ∈ word) (outside : c ∉ text) :
    after? word text = none := by
  cases after : after? word text with
  | none => rfl
  | some rest =>
      rw [after?_eq_some_iff.mp after] at outside
      exact absurd (List.mem_append_left rest member) outside

theorem cut_of_not_mem (h : separator ∉ before) :
    cut separator (before ++ separator :: rest) = (before, some rest) := by
  induction before with
  | nil => simp [cut]
  | cons c before ih =>
      simp only [List.mem_cons, not_or] at h
      rw [List.cons_append, cut, if_neg (Ne.symm h.1), ih h.2]

theorem cut_eq_some_iff :
    cut separator text = (before, some rest) ↔
      separator ∉ before ∧ text = before ++ separator :: rest := by
  constructor
  · intro h
    induction text generalizing before with
    | nil => cases h
    | cons c text ih =>
        rw [cut] at h
        split at h
        case isTrue here =>
          cases h
          exact ⟨List.not_mem_nil, congrArg (· :: _) here⟩
        case isFalse other =>
          rcases cutting : cut separator text with ⟨first, more⟩
          rw [cutting] at h
          cases h
          obtain ⟨outside, rfl⟩ := ih cutting
          refine ⟨fun member => ?_, rfl⟩
          rcases List.mem_cons.mp member with same | inside
          · exact other same.symm
          · exact outside inside
  · rintro ⟨outside, rfl⟩
    exact cut_of_not_mem outside

theorem takeWhile_ne_append (outside : separator ∉ before) :
    (before ++ rest).takeWhile (· ≠ separator) = before ++ rest.takeWhile (· ≠ separator) :=
  List.takeWhile_append_of_pos fun _ member =>
    decide_eq_true fun same => outside (same ▸ member)

theorem fields_eq_splitOn (separator : Char) (text : List Char) :
    fields separator text = text.splitOn separator := by
  induction text with
  | nil => rw [fields, List.splitOn_nil]
  | cons c text ih =>
      rw [fields, List.splitOn_cons_eq_if_modifyHead, ← ih]
      by_cases h : c = separator
      · simp [h]
      · cases parts : fields separator text with
        | nil => exact absurd parts (fields_ne_nil separator text)
        | cons field more => simp [h]

theorem mem_intercalate {parts : List (List Char)} (h : c ∈ [separator].intercalate parts) :
    c = separator ∨ ∃ part ∈ parts, c ∈ part := by
  induction parts with
  | nil => cases h
  | cons part parts ih =>
      cases parts with
      | nil =>
          rw [List.intercalate_singleton] at h
          exact .inr ⟨part, List.mem_cons_self, h⟩
      | cons next parts =>
          rw [List.intercalate_cons_cons, List.append_assoc, List.mem_append, List.singleton_append,
            List.mem_cons] at h
          obtain here | rfl | later := h
          · exact .inr ⟨part, List.mem_cons_self, here⟩
          · exact .inl rfl
          · obtain same | ⟨other, member, inside⟩ := ih later
            · exact .inl same
            · exact .inr ⟨other, List.mem_cons_of_mem _ member, inside⟩

end NodeProtocol.Text
