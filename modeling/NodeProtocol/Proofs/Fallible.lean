import Mathlib.Data.List.Forall2

namespace NodeProtocol

variable {ε α β : Type}

theorem bind_eq_ok {x : Except ε α} {f : α → Except ε β} {b : β} :
    (x >>= f) = .ok b ↔ ∃ a, x = .ok a ∧ f a = .ok b := by
  cases x with
  | error cause => exact ⟨nofun, nofun⟩
  | ok a =>
      constructor
      · intro h
        exact ⟨a, rfl, h⟩
      · rintro ⟨_, result, h⟩
        cases result
        exact h

theorem pure_eq_ok {a b : α} : (pure a : Except ε α) = .ok b ↔ a = b :=
  Except.ok.injEq a b ▸ Iff.rfl

theorem mapError_eq_ok {δ : Type} {x : Except ε α} {f : ε → δ} {a : α} :
    x.mapError f = .ok a ↔ x = .ok a := by
  cases x <;> simp [Except.mapError]

theorem mapM_eq_ok {f : α → Except ε β} {items : List α} {results : List β} :
    items.mapM f = .ok results ↔ List.Forall₂ (fun item result => f item = .ok result) items results := by
  induction items generalizing results with
  | nil => rw [List.mapM_nil, pure_eq_ok, List.forall₂_nil_left_iff, eq_comm]
  | cons item items ih =>
      simp only [List.mapM_cons, bind_eq_ok, pure_eq_ok, List.forall₂_cons_left_iff]
      constructor
      · rintro ⟨first, hf, rest, hr, rfl⟩
        exact ⟨first, rest, hf, ih.mp hr, rfl⟩
      · rintro ⟨first, rest, hf, hr, rfl⟩
        exact ⟨first, hf, rest, ih.mpr hr, rfl⟩

theorem mapM_eq_some {f : α → Option β} {items : List α} {results : List β} :
    items.mapM f = some results ↔
      List.Forall₂ (fun item result => f item = some result) items results := by
  induction items generalizing results with
  | nil => simp [eq_comm]
  | cons item items ih =>
      simp only [List.mapM_cons, Option.bind_eq_bind, Option.bind_eq_some_iff, ih, Option.pure_def,
        Option.some.injEq, List.forall₂_cons_left_iff]
      constructor
      · rintro ⟨first, hf, rest, hr, rfl⟩
        exact ⟨first, rest, hf, hr, rfl⟩
      · rintro ⟨first, rest, hf, hr, rfl⟩
        exact ⟨first, hf, rest, hr, rfl⟩

theorem mapM_cases (f : α → Except ε β) (items : List α) :
    (∃ results, items.mapM f = .ok results) ∨
      ∃ item ∈ items, ∃ cause, f item = .error cause ∧ items.mapM f = .error cause := by
  induction items with
  | nil => exact .inl ⟨[], rfl⟩
  | cons item items ih =>
      rw [List.mapM_cons]
      cases first : f item with
      | error cause => exact .inr ⟨item, List.mem_cons_self, cause, first, rfl⟩
      | ok result =>
          rcases ih with ⟨results, rest⟩ | ⟨other, member, cause, fails, rest⟩
          · rw [rest]
            exact .inl ⟨result :: results, rfl⟩
          · rw [rest]
            exact .inr ⟨other, List.mem_cons_of_mem _ member, cause, fails, rfl⟩

theorem exists_forall₂ {R : α → β → Prop} {items : List α}
    (h : ∀ item ∈ items, ∃ result, R item result) : ∃ results, List.Forall₂ R items results := by
  induction items with
  | nil => exact ⟨[], .nil⟩
  | cons item items ih =>
      rw [List.forall_mem_cons] at h
      obtain ⟨result, first⟩ := h.1
      obtain ⟨results, rest⟩ := ih h.2
      exact ⟨result :: results, .cons first rest⟩

theorem exists_forall₂_both {γ : Type} {P : α → β → Prop} {R : β → γ → Prop} {S : α → γ → Prop}
    {items : List α} {results : List β} (pairs : List.Forall₂ P items results)
    (each : ∀ item result, P item result → ∃ other, R result other ∧ S item other) :
    ∃ others, List.Forall₂ R results others ∧ List.Forall₂ S items others := by
  induction pairs with
  | nil => exact ⟨[], .nil, .nil⟩
  | cons first _ ih =>
      obtain ⟨other, left, right⟩ := each _ _ first
      obtain ⟨others, lefts, rights⟩ := ih
      exact ⟨other :: others, .cons left lefts, .cons right rights⟩

theorem exists_of_mem_right {R : α → β → Prop} {items : List α} {results : List β} {result : β}
    (pairs : List.Forall₂ R items results) (member : result ∈ results) :
    ∃ item ∈ items, R item result := by
  induction pairs with
  | nil => cases member
  | cons first _ ih =>
      cases member with
      | head => exact ⟨_, List.mem_cons_self, first⟩
      | tail _ member =>
          obtain ⟨item, inside, related⟩ := ih member
          exact ⟨item, List.mem_cons_of_mem _ inside, related⟩

theorem exists_getElem? {R : α → β → Prop} {items : List α} {results : List β} {i : Nat} {item : α}
    (pairs : List.Forall₂ R items results) (h : items[i]? = some item) :
    ∃ result, results[i]? = some result ∧ R item result := by
  induction pairs generalizing i with
  | nil => cases h
  | cons first _ ih =>
      cases i with
      | zero =>
          cases h
          exact ⟨_, rfl, first⟩
      | succ i => exact ih h

end NodeProtocol
