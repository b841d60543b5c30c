import NodeProtocol.Abi.Signature
import NodeProtocol.Proofs.Abi.TypeText
import NodeProtocol.Proofs.Fallible
import NodeProtocol.Proofs.Text

/-!
# The texts of signatures

`SpellsSignature text signature` is the grammar of signatures, apart from any reader: a name, then
the spelled types between parentheses, with blanks around the whole and around each of them.

* `Signature.parse_eq_ok_iff`: `Signature.parse` accepts exactly what the grammar spells.
* `spellsSignature_text`: the grammar spells the canonical text, which has no blanks.
* `not_spellsSignature_of_gap`: it spells no text with blanks after the start of the name and before
  the parenthesis.
* `canonical_signatures`: what this says about `Signature.parse` and `Signature.text`.
-/

namespace NodeProtocol.Abi
open Text

/-! ## The grammar -/

structure IsName (name : List Char) : Prop where
  ne_nil : name ≠ []
  chars : ∀ c ∈ name, Signature.isNameChar c = true

def SpellsParam (field : List Char) (ty : Ty) : Prop :=
  ∃ word, Padded word field ∧ Spells word ty.kind ty.dims

inductive SpellsParams : List Char → List Ty → Prop
  | blank {gap : List Char} (blank : Blanks gap) : SpellsParams gap []
  | listed {fields : List (List Char)} {params : List Ty} (nonempty : params ≠ [])
      (spelled : List.Forall₂ SpellsParam fields params) :
      SpellsParams ([','].intercalate fields) params

structure SpellsSignature (text : List Char) (signature : Signature) : Prop where
  name : IsName signature.name.toList
  parts : ∃ body, SpellsParams body signature.params ∧
    Padded (signature.name.toList ++ '(' :: (body ++ [')'])) text

variable {text name body field word : List Char} {fields : List (List Char)} {kind : Kind}
  {dims : List Dim} {ty : Ty} {params : List Ty} {signature : Signature} {c : Char}

/-! ## Characters -/

def isTypeChar (c : Char) : Bool :=
  c.isAlphanum || c = '[' || c = ']'

theorem isBlank_of_isTypeChar (h : isTypeChar c = true) : isBlank c = false := by
  simp only [isTypeChar, Bool.or_eq_true, decide_eq_true_eq] at h
  obtain (letterOrDigit | rfl) | rfl := h
  · exact isBlank_of_isAlphanum letterOrDigit
  · rfl
  · rfl

theorem isBlank_of_isNameChar (h : Signature.isNameChar c = true) : isBlank c = false := by
  simp only [Signature.isNameChar, Bool.or_eq_true, decide_eq_true_eq] at h
  obtain letterOrDigit | rfl := h
  · exact isBlank_of_isAlphanum letterOrDigit
  · rfl

theorem isTypeChar_of_isDigit (h : c.isDigit = true) : isTypeChar c = true := by
  simp [isTypeChar, Char.isAlphanum, h]

theorem Base.chars (h : Base text kind) : ∀ c ∈ text, isTypeChar c = true := by
  cases h with
  | address | bool | bytes | string | real | ureal | bareInt | bareUint =>
      exact List.all_eq_true.mp (by decide)
  | fixedBytes width _ | int width _ | uint width _ =>
      rw [List.forall_mem_append]
      refine ⟨List.all_eq_true.mp (by decide), fun c member => ?_⟩
      exact isTypeChar_of_isDigit (width.numeral.isDigit c member)

theorem Base.ne_nil (h : Base text kind) : text ≠ [] := by
  cases h <;> simp

theorem Suffixes.chars (h : Suffixes text dims) : ∀ c ∈ text, isTypeChar c = true := by
  induction h with
  | nil => exact List.forall_mem_nil _
  | @cons size rest _ _ head _ ih =>
      have inside : ∀ c ∈ size, isTypeChar c = true := by
        cases head with
        | dynamic => exact List.forall_mem_nil _
        | fixed numeral => exact fun c member => isTypeChar_of_isDigit (numeral.isDigit c member)
      rw [List.forall_mem_cons, List.forall_mem_append, List.forall_mem_cons]
      exact ⟨rfl, inside, rfl, ih⟩

theorem Spells.chars (h : Spells text kind dims) : ∀ c ∈ text, isTypeChar c = true := by
  obtain ⟨base, suffixes, rfl, name, sizes⟩ := h.parts
  exact List.forall_mem_append.mpr ⟨name.chars, sizes.chars⟩

theorem Spells.ne_nil (h : Spells text kind dims) : text ≠ [] := by
  obtain ⟨base, suffixes, rfl, name, -⟩ := h.parts
  exact List.append_ne_nil_of_left_ne_nil name.ne_nil _

theorem Spells.isBlank (h : Spells text kind dims) : ∀ c ∈ text, isBlank c = false :=
  fun c member => isBlank_of_isTypeChar (h.chars c member)

/-! ## Parameters -/

theorem parse?_trim_eq_some_iff : Ty.parse? (trim field) = some ty ↔ SpellsParam field ty := by
  rw [parse?_eq_some_iff]
  constructor
  · exact fun h => ⟨trim field, padded_trim field, h⟩
  · rintro ⟨word, padded, h⟩
    rwa [padded.trim_eq (fun c first => h.isBlank c (List.mem_of_mem_head? first))
      fun c last => h.isBlank c (List.mem_of_mem_getLast? last)]

theorem SpellsParam.not_mem (h : SpellsParam field ty) : ',' ∉ field := by
  obtain ⟨word, ⟨lead, trail, blankLead, blankTrail, rfl⟩, spelled⟩ := h
  simp only [List.mem_append, not_or]
  refine ⟨⟨blankLead.not_mem rfl, fun member => ?_⟩, blankTrail.not_mem rfl⟩
  cases spelled.chars _ member

theorem SpellsParam.not_blanks (h : SpellsParam field ty) : ¬Blanks field := by
  obtain ⟨word, ⟨lead, trail, -, -, rfl⟩, spelled⟩ := h
  obtain ⟨c, rest, rfl⟩ := List.exists_cons_of_ne_nil spelled.ne_nil
  intro blank
  cases (spelled.isBlank c List.mem_cons_self).symm.trans (blank c (by simp))

theorem spellsParams_intercalate (h : List.Forall₂ SpellsParam fields params) :
    SpellsParams ([','].intercalate fields) params := by
  cases h with
  | nil => exact .blank (List.forall_mem_nil _)
  | cons first more => exact .listed (List.cons_ne_nil _ _) (.cons first more)

theorem SpellsParams.of_fields (h : List.Forall₂ SpellsParam (Text.fields ',' body) params) :
    SpellsParams body params := by
  have joined : [','].intercalate (Text.fields ',' body) = body := by
    rw [fields_eq_splitOn, List.intercalate_splitOn]
  rw [← joined]
  exact spellsParams_intercalate h

theorem fields_intercalate (nonempty : params ≠ []) (h : List.Forall₂ SpellsParam fields params) :
    Text.fields ',' ([','].intercalate fields) = fields := by
  rw [fields_eq_splitOn]
  apply List.splitOn_intercalate
  · intro field member
    obtain ⟨ty, -, spelled⟩ := exists_of_mem_right h.flip member
    exact SpellsParam.not_mem spelled
  · rintro rfl
    exact nonempty (List.forall₂_nil_left_iff.mp h)

theorem not_blanks_intercalate (nonempty : params ≠ [])
    (h : List.Forall₂ SpellsParam fields params) : ¬Blanks ([','].intercalate fields) := by
  intro blank
  -- Between blanks only there is no comma, so that they would be the one parameter.
  have single := fields_intercalate nonempty h
  rw [fields_eq_splitOn, List.splitOn_eq_singleton (blank.not_mem rfl)] at single
  rw [← single] at h
  obtain ⟨ty, _, spelled, -, -⟩ := List.forall₂_cons_left_iff.mp h
  exact spelled.not_blanks blank

theorem parseParams?_eq_some_iff :
    Signature.parseParams? body = some params ↔ SpellsParams body params := by
  have empty : (trim body).isEmpty = true ↔ Blanks body := by
    rw [List.isEmpty_iff, trim_eq_nil_iff]
  rw [Signature.parseParams?]
  constructor
  · intro h
    split at h
    case isTrue none =>
      cases h
      exact .blank (empty.mp none)
    case isFalse =>
      simp only [mapM_eq_some, parse?_trim_eq_some_iff] at h
      exact .of_fields h
  · rintro (blank | ⟨nonempty, spelled⟩)
    · rw [if_pos (empty.mpr blank)]
    · rw [if_neg (empty.not.mpr (not_blanks_intercalate nonempty spelled)),
        fields_intercalate nonempty spelled, mapM_eq_some]
      simpa only [parse?_trim_eq_some_iff] using spelled

/-! ## Reading signatures -/

theorem closed?_eq_some_iff : Signature.closed? text = some body ↔ text = body ++ [')'] := by
  rw [Signature.closed?]
  constructor
  · intro h
    split at h
    case isTrue closing =>
      cases h
      obtain ⟨front, rfl⟩ := List.getLast?_eq_some_iff.mp closing
      rw [List.dropLast_concat]
    case isFalse => cases h
  · rintro rfl
    rw [if_pos List.getLast?_concat, List.dropLast_concat]

theorem IsName.isBlank (h : IsName name) : ∀ c ∈ name, isBlank c = false :=
  fun c member => isBlank_of_isNameChar (h.chars c member)

theorem IsName.not_mem (h : IsName name) : '(' ∉ name :=
  fun member => by cases h.chars _ member

theorem isName_iff : (name.isEmpty || !name.all Signature.isNameChar) = false ↔ IsName name := by
  simp only [Bool.or_eq_false_iff, Bool.not_eq_false', List.all_eq_true, List.isEmpty_eq_false_iff]
  exact ⟨fun h => ⟨h.1, h.2⟩, fun h => ⟨h.ne_nil, h.chars⟩⟩

theorem trim_signature (named : IsName name) (h : Padded (name ++ '(' :: (body ++ [')'])) text) :
    trim text = name ++ '(' :: (body ++ [')']) := by
  apply h.trim_eq
  · obtain ⟨c, rest, rfl⟩ := List.exists_cons_of_ne_nil named.ne_nil
    rintro _ ⟨⟩
    exact named.isBlank c List.mem_cons_self
  · rw [← List.cons_append, ← List.append_assoc, List.getLast?_concat]
    rintro _ ⟨⟩
    rfl

theorem Signature.parse?_eq_some_iff :
    Signature.parse? text = some signature ↔ SpellsSignature text signature := by
  rw [Signature.parse?]
  constructor
  · intro h
    rcases cutting : cut '(' (trim text) with ⟨name, _ | rest⟩
    · rw [cutting] at h
      cases h
    · obtain ⟨-, parts⟩ := cut_eq_some_iff.mp cutting
      rw [cutting] at h
      simp only [Option.bind_eq_bind, Option.bind_some, Option.bind_eq_some_iff,
        closed?_eq_some_iff] at h
      obtain ⟨body, rfl, h⟩ := h
      split at h
      case isTrue => cases h
      case isFalse named =>
        simp only [Option.bind_eq_some_iff, parseParams?_eq_some_iff] at h
        obtain ⟨params, listed, ⟨⟩⟩ := h
        have name : (String.ofList name).toList = name := String.toList_ofList
        refine ⟨?_, body, listed, ?_⟩
        · rw [name]
          exact isName_iff.mp (Bool.eq_false_of_not_eq_true named)
        · rw [name, ← parts]
          exact padded_trim text
  · rintro ⟨named, body, listed, padded⟩
    rw [trim_signature named padded, cut_of_not_mem named.not_mem]
    simp [closed?_eq_some_iff.mpr, isName_iff.mpr named, parseParams?_eq_some_iff.mpr listed]

theorem Signature.parse_eq_ok_iff {text : String} :
    Signature.parse text = .ok signature ↔ SpellsSignature text.toList signature := by
  rw [← Signature.parse?_eq_some_iff, Signature.parse]
  split
  case h_1 other h => rw [h, Except.ok.injEq, Option.some.injEq]
  case h_2 h => simp [h]

theorem Signature.parse_eq_error {text : String}
    (h : ∀ signature, ¬SpellsSignature text.toList signature) :
    Signature.parse text = .error (.invalidSignature text) := by
  rw [Signature.parse]
  split
  case h_1 signature accepted => exact absurd (parse?_eq_some_iff.mp accepted) (h signature)
  case h_2 => rfl

theorem not_spellsSignature_of_gap {before gap after : List Char} (started : ¬Blanks before)
    (outside : '(' ∉ before) (blank : Blanks gap) (nonempty : gap ≠ []) :
    ¬SpellsSignature (before ++ gap ++ after) signature := by
  rintro ⟨named, body, -, lead, trail, blankLead, -, parts⟩
  -- Both sides are the text up to its first parenthesis.
  have front : lead ++ signature.name.toList = before ++ (gap ++ after.takeWhile (· ≠ '(')) := by
    have cutoff := congrArg (List.takeWhile (· ≠ '(')) parts
    simp only [List.append_assoc] at cutoff
    rw [takeWhile_ne_append outside, takeWhile_ne_append (blank.not_mem rfl),
      takeWhile_ne_append (blankLead.not_mem rfl), takeWhile_ne_append named.not_mem] at cutoff
    simpa using cutoff.symm
  obtain ⟨rest, rfl, -⟩ | ⟨rest, rfl, inside⟩ := List.append_eq_append_iff.mp front.symm
  · exact started fun c member => blankLead c (List.mem_append_left _ member)
  · obtain ⟨c, gap, rfl⟩ := List.exists_cons_of_ne_nil nonempty
    have member : c ∈ signature.name.toList := by simp [inside]
    cases (named.isBlank c member).symm.trans (blank c List.mem_cons_self)

/-! ## Writing signatures -/

def writeSignature (name : String) (fields : List String) : String :=
  name ++ "(" ++ ",".intercalate fields ++ ")"

theorem toList_writeSignature (name : String) (fields : List String) :
    (writeSignature name fields).toList =
      name.toList ++ '(' :: ([','].intercalate (fields.map String.toList) ++ [')']) := by
  simp [writeSignature]

theorem spellsSignature_write {name text : String} {fields : List String}
    (named : IsName name.toList)
    (listed : List.Forall₂ (fun field ty => SpellsParam field.toList ty) fields params)
    (padded : Padded (writeSignature name fields).toList text.toList) :
    SpellsSignature text.toList ⟨name, params⟩ := by
  rw [toList_writeSignature] at padded
  exact ⟨named, _, spellsParams_intercalate (List.forall₂_map_left_iff.mpr listed), padded⟩

theorem spellsSignature_text (named : IsName signature.name.toList) :
    SpellsSignature signature.text.toList signature := by
  apply spellsSignature_write named _ (.refl _)
  rw [List.forall₂_map_left_iff, List.forall₂_same]
  exact fun ty _ => ⟨ty.text.toList, .refl _, spells_text ty⟩

theorem isBlank_text (named : IsName signature.name.toList) :
    ∀ c ∈ signature.text.toList, isBlank c = false := by
  intro c member
  change c ∈ (writeSignature signature.name (signature.params.map Ty.text)).toList at member
  rw [toList_writeSignature, List.mem_append, List.mem_cons, List.mem_append,
    List.mem_singleton] at member
  obtain inName | rfl | inBody | rfl := member
  · exact named.isBlank c inName
  · rfl
  · obtain rfl | ⟨part, member, inside⟩ := mem_intercalate inBody
    · rfl
    · simp only [List.map_map, List.mem_map] at member
      obtain ⟨ty, -, rfl⟩ := member
      exact (spells_text ty).isBlank c inside
  · rfl

/-! ## Canonical texts -/

theorem parse_signature_text (named : IsName signature.name.toList) :
    Signature.parse signature.text = .ok signature :=
  Signature.parse_eq_ok_iff.mpr (spellsSignature_text named)

theorem text_eq_iff {signature' : Signature} (named : IsName signature.name.toList)
    (named' : IsName signature'.name.toList) :
    signature.text = signature'.text ↔
      signature.name = signature'.name ∧ signature.params = signature'.params := by
  constructor
  · intro same
    have read := parse_signature_text named
    rw [same, parse_signature_text named'] at read
    cases read
    exact ⟨rfl, rfl⟩
  · rintro ⟨name, params⟩
    rw [Signature.text, Signature.text, name, params]

theorem spellsParam_of_padded {words fields : List String}
    (read : List.Forall₂ (fun word ty => Ty.parse word = .ok ty) words params)
    (padded : List.Forall₂ (fun word field => Padded word.toList field.toList) words fields) :
    List.Forall₂ (fun field ty => SpellsParam field.toList ty) fields params := by
  induction read generalizing fields with
  | nil =>
      cases padded
      exact .nil
  | cons first _ ih =>
      cases padded with
      | cons gaps padded => exact .cons ⟨_, gaps, parse_eq_ok_iff.mp first⟩ (ih padded)

theorem parse_padded {name text : String} {words fields : List String}
    (named : IsName name.toList)
    (read : List.Forall₂ (fun word ty => Ty.parse word = .ok ty) words params)
    (padded : List.Forall₂ (fun word field => Padded word.toList field.toList) words fields)
    (around : Padded (writeSignature name fields).toList text.toList) :
    Signature.parse text = .ok ⟨name, params⟩ :=
  Signature.parse_eq_ok_iff.mpr
    (spellsSignature_write named (spellsParam_of_padded read padded) around)

/-- The canonical text of an accepted signature has no blanks and is read back, so that it says
exactly which name and which types were read; so do the bytes whose digest is the topic and gives
the selector. Blanks around the whole and around each parameter change nothing that is read, and
blanks alone are no parameters. Blanks between the start of the name and the parenthesis are an
error. -/
theorem canonical_signatures :
    (∀ (text : String) (signature : Signature), Signature.parse text = .ok signature →
      (∀ c ∈ signature.text.toList, isBlank c = false) ∧
      Signature.parse signature.text = .ok signature) ∧
    (∀ (text text' : String) (signature signature' : Signature),
      Signature.parse text = .ok signature → Signature.parse text' = .ok signature' →
      (signature.text = signature'.text ↔
        signature.name = signature'.name ∧ signature.params = signature'.params) ∧
      (utf8 signature.text = utf8 signature'.text ↔
        signature.name = signature'.name ∧ signature.params = signature'.params) ∧
      (signature.text = signature'.text →
        signature.selector = signature'.selector ∧ signature.topic = signature'.topic)) ∧
    (∀ (name text : String) (words fields : List String) (params : List Ty),
      IsName name.toList → List.Forall₂ (fun word ty => Ty.parse word = .ok ty) words params →
      List.Forall₂ (fun word field => Padded word.toList field.toList) words fields →
      Padded (writeSignature name fields).toList text.toList →
      Signature.parse (writeSignature name words) = .ok ⟨name, params⟩ ∧
      Signature.parse text = .ok ⟨name, params⟩) ∧
    (∀ (name gap text : String), IsName name.toList → Blanks gap.toList →
      Padded (name ++ "(" ++ gap ++ ")").toList text.toList →
      Signature.parse text = .ok ⟨name, []⟩) ∧
    (∀ before gap after : String, ¬Blanks before.toList → '(' ∉ before.toList → gap ≠ "" →
      Blanks gap.toList →
      Signature.parse (before ++ gap ++ after) =
        .error (.invalidSignature (before ++ gap ++ after))) := by
  refine ⟨fun text signature accepted => ?_,
    fun text text' signature signature' accepted accepted' => ?_,
    fun name text words fields params named read padded around => ⟨?_, ?_⟩,
    fun name gap text named blank around => ?_,
    fun before gap after started outside nonempty blank => ?_⟩
  · have named := (Signature.parse_eq_ok_iff.mp accepted).name
    exact ⟨isBlank_text named, parse_signature_text named⟩
  · have named := (Signature.parse_eq_ok_iff.mp accepted).name
    have named' := (Signature.parse_eq_ok_iff.mp accepted').name
    refine ⟨text_eq_iff named named', ?_, fun same => ?_⟩
    · rw [utf8_inj, text_eq_iff named named']
    · rw [Signature.selector, Signature.selector, Signature.topic, Signature.topic, same]
      exact ⟨rfl, rfl⟩
  · exact parse_padded named read (List.forall₂_same.mpr fun word _ => .refl _) (.refl _)
  · exact parse_padded named read padded around
  · refine Signature.parse_eq_ok_iff.mpr ⟨named, gap.toList, .blank blank, ?_⟩
    simpa using around
  · apply Signature.parse_eq_error
    simp only [String.toList_append]
    intro signature
    exact not_spellsSignature_of_gap started outside blank (mt String.toList_eq_nil_iff.mp nonempty)

theorem canonical_signatures_transfer :
    let transfer : Signature := ⟨"transfer", [⟨.address, [], by decide⟩, ⟨.uint 128, [], by decide⟩]⟩
    let pause : Signature := ⟨"pause", []⟩
    Signature.parse " transfer( address ,\tuint )" = .ok transfer ∧
      Signature.parse transfer.text = .ok transfer ∧
      Signature.parse "pause(\n)" = .ok pause ∧
      transfer.text ≠ pause.text ∧
      Signature.parse "transfer (address,uint)" =
        .error (.invalidSignature "transfer (address,uint)") := by
  obtain ⟨canonical, same, padded, blank, refused⟩ := canonical_signatures
  have transfer := (padded "transfer" " transfer( address ,\tuint )" ["address", "uint"]
    [" address ", "\tuint "] [⟨.address, [], by decide⟩, ⟨.uint 128, [], by decide⟩]
    (isName_iff.mp (by decide)) (.cons rfl (.cons rfl .nil))
    (.cons ⟨[' '], [' '], by decide, by decide, by decide⟩
      (.cons ⟨['\t'], [' '], by decide, by decide, by decide⟩ .nil))
    ⟨[' '], [], by decide, by decide, by decide⟩).2
  have pause := blank "pause" "\n" "pause(\n)" (isName_iff.mp (by decide)) (by decide) (.refl _)
  refine ⟨transfer, (canonical _ _ transfer).2, pause, ?_, refused "transfer" " " "(address,uint)"
    (by decide) (by decide) (by decide) (by decide)⟩
  rw [Ne, (same _ _ _ _ transfer pause).1]
  decide

end NodeProtocol.Abi
