import NodeProtocol.Cache.Basic
import Mathlib.Data.List.Basic
import Mathlib.Data.List.Pairwise
import Mathlib.Data.List.Perm.Basic
import Mathlib.Data.List.Nodup

namespace NodeProtocol

namespace Ranking

variable {ρ κ α : Type} {before : ρ → ρ → Bool} {ranking : Ranking ρ κ} {rank : ρ} {key : κ}

def Sorted (before : ρ → ρ → Bool) (ranking : Ranking ρ κ) : Prop :=
  ranking.Pairwise fun a b => before a.1 b.1

theorem insert_perm (before : ρ → ρ → Bool) (rank : ρ) (key : κ) (ranking : Ranking ρ κ) :
    (insert before rank key ranking).Perm ((rank, key) :: ranking) := by
  induction ranking with
  | nil => exact .refl _
  | cons first rest ih =>
      rw [insert]
      split
      · exact .refl _
      · exact (ih.cons first).trans (.swap ..)

theorem mem_insert {place : ρ × κ} :
    place ∈ insert before rank key ranking ↔ place = (rank, key) ∨ place ∈ ranking := by
  rw [(insert_perm before rank key ranking).mem_iff, List.mem_cons]

theorem insert_eq_append (h : ∀ place ∈ ranking, ¬ before rank place.1) :
    insert before rank key ranking = ranking ++ [(rank, key)] := by
  induction ranking with
  | nil => rfl
  | cons first rest ih =>
      rw [List.forall_mem_cons] at h
      rw [insert, if_neg h.1, ih h.2, List.cons_append]

theorem mem_erase [DecidableEq ρ] {place : ρ × κ} :
    place ∈ ranking.erase rank ↔ place ∈ ranking ∧ place.1 ≠ rank := by
  simp [erase]

theorem takeWhile_eq_filter {p : α → Bool} {items : List α}
    (h : items.Pairwise fun a b => p b → p a) : items.takeWhile p = items.filter p := by
  induction items with
  | nil => rfl
  | cons first rest ih =>
      obtain ⟨inherited, rest_sorted⟩ := List.pairwise_cons.mp h
      by_cases holds : p first
      · rw [List.takeWhile_cons_of_pos holds, List.filter_cons_of_pos holds, ih rest_sorted]
      · have none_later : rest.filter p = [] := by
          rw [List.filter_eq_nil_iff]
          exact fun item member later => holds (inherited item member later)
        rw [List.takeWhile_cons_of_neg holds, List.filter_cons_of_neg holds, none_later]

theorem forall_mem_dropWhile {p : α → Bool} {items : List α}
    (h : items.Pairwise fun a b => p b → p a) : ∀ item ∈ items.dropWhile p, ¬ p item := by
  induction items with
  | nil => exact nofun
  | cons first rest ih =>
      obtain ⟨inherited, rest_sorted⟩ := List.pairwise_cons.mp h
      by_cases holds : p first
      · rw [List.dropWhile_cons_of_pos holds]
        exact ih rest_sorted
      · rw [List.dropWhile_cons_of_neg holds, List.forall_mem_cons]
        exact ⟨holds, fun item member later => holds (inherited item member later)⟩

structure StrictOrder (before : ρ → ρ → Bool) : Prop where
  irrefl : ∀ a, ¬ before a a
  trans : ∀ a b c, before a b → before b c → before a c

theorem strictOrder_lt : StrictOrder fun a b : Nat => decide (a < b) where
  irrefl a := by simp
  trans a b c := by simpa using Nat.lt_trans

theorem Sorted.insert (order : StrictOrder before) (h : Sorted before ranking)
    (apart : ∀ place ∈ ranking, before rank place.1 ∨ before place.1 rank) :
    Sorted before (insert before rank key ranking) := by
  induction ranking with
  | nil => exact List.pairwise_singleton ..
  | cons first rest ih =>
      rw [List.forall_mem_cons] at apart
      obtain ⟨first_before, rest_sorted⟩ := List.pairwise_cons.mp h
      rw [Ranking.insert]
      split
      case isTrue early =>
        refine List.pairwise_cons.mpr ⟨?_, h⟩
        intro place member
        cases member with
        | head => exact early
        | tail _ member => exact order.trans _ _ _ early (first_before place member)
      case isFalse late =>
        refine List.pairwise_cons.mpr ⟨?_, ih rest_sorted apart.2⟩
        intro place member
        rcases mem_insert.mp member with rfl | member
        · exact apart.1.resolve_left late
        · exact first_before place member

theorem Sorted.rank_inj (order : StrictOrder before) (h : Sorted before ranking)
    {place other : ρ × κ} (here : place ∈ ranking) (there : other ∈ ranking)
    (same : place.1 = other.1) : place = other := by
  by_contra differs
  have symmetric : Std.Symm fun a b : ρ × κ => before a.1 b.1 ∨ before b.1 a.1 :=
    ⟨fun _ _ => Or.symm⟩
  have apart : ranking.Pairwise fun a b => before a.1 b.1 ∨ before b.1 a.1 := h.imp Or.inl
  rcases apart.forall here there differs with first | second
  · exact order.irrefl _ (same ▸ first)
  · exact order.irrefl _ (same ▸ second)

theorem Sorted.erase_first [DecidableEq ρ] (order : StrictOrder before) {rest : Ranking ρ κ}
    (h : Sorted before ((rank, key) :: rest)) : erase ((rank, key) :: rest) rank = rest := by
  have later : rest.filter (·.1 ≠ rank) = rest := by
    rw [List.filter_eq_self]
    intro place member
    refine decide_eq_true ?_
    intro same
    exact order.irrefl rank (same ▸ (List.pairwise_cons.mp h).1 place member)
  rw [erase, List.filter_cons_of_neg (by simp), later]

section Indexes

variable [DecidableEq κ]

structure Indexes (before : ρ → ρ → Bool) (rankOf : α → ρ) (table : Table κ α)
    (ranking : Ranking ρ κ) : Prop where
  sorted : Sorted before ranking
  mem_iff : ∀ {place}, place ∈ ranking ↔
    ∃ entry, table.get? place.2 = some entry ∧ rankOf entry = place.1

namespace Indexes

variable {rankOf : α → ρ} {table : Table κ α} {entry : α}

theorem empty : Indexes before rankOf (.empty : Table κ α) [] where
  sorted := .nil
  mem_iff := by simp

theorem mem (h : Indexes before rankOf table ranking) (found : table.get? key = some entry) :
    (rankOf entry, key) ∈ ranking :=
  h.mem_iff.mpr ⟨entry, found, rfl⟩

theorem key_inj (order : StrictOrder before) (h : Indexes before rankOf table ranking)
    {other : κ} {entry' : α} (here : table.get? key = some entry)
    (there : table.get? other = some entry') (same : rankOf entry = rankOf entry') : key = other :=
  congrArg Prod.snd (h.sorted.rank_inj order (h.mem here) (h.mem there) same)

theorem rank_eq_iff (order : StrictOrder before) (h : Indexes before rankOf table ranking)
    (found : table.get? key = some entry) {place : ρ × κ} (member : place ∈ ranking) :
    place.1 = rankOf entry ↔ place.2 = key := by
  obtain ⟨other, there, rank_eq⟩ := h.mem_iff.mp member
  constructor
  · intro same
    exact h.key_inj order there found (rank_eq.trans same)
  · intro same
    rw [same, found] at there
    cases there
    exact rank_eq.symm

theorem erase [DecidableEq ρ] (order : StrictOrder before)
    (h : Indexes before rankOf table ranking) (found : table.get? key = some entry) :
    Indexes before rankOf (table.erase key) (ranking.erase (rankOf entry)) where
  sorted := List.Pairwise.filter _ h.sorted
  mem_iff := by
    intro place
    rw [mem_erase, Table.get?_erase]
    constructor
    · rintro ⟨member, differs⟩
      obtain ⟨other, there, same⟩ := h.mem_iff.mp member
      rw [Ne, h.rank_eq_iff order found member] at differs
      exact ⟨other, by rw [if_neg differs, there], same⟩
    · rintro ⟨other, there, same⟩
      split at there
      · cases there
      case isFalse differs =>
        have member : place ∈ ranking := h.mem_iff.mpr ⟨other, there, same⟩
        exact ⟨member, mt (h.rank_eq_iff order found member).mp differs⟩

theorem insert (order : StrictOrder before) (h : Indexes before rankOf table ranking)
    (absent : table.get? key = none)
    (apart : ∀ place ∈ ranking, before (rankOf entry) place.1 ∨ before place.1 (rankOf entry)) :
    Indexes before rankOf (table.insert key entry)
      (Ranking.insert before (rankOf entry) key ranking) where
  sorted := h.sorted.insert order apart
  mem_iff := by
    intro place
    rw [mem_insert, h.mem_iff, Table.get?_insert]
    constructor
    · rintro (rfl | ⟨other, there, same⟩)
      · exact ⟨entry, if_pos rfl, rfl⟩
      · have differs : place.2 ≠ key := by
          intro equal
          rw [equal, absent] at there
          cases there
        exact ⟨other, by rw [if_neg differs, there], same⟩
    · rintro ⟨other, there, same⟩
      split at there
      case isTrue equal =>
        cases there
        exact .inl (Prod.ext same.symm equal)
      case isFalse =>
        exact .inr ⟨other, there, same⟩

theorem replace (h : Indexes before rankOf table ranking) {entry' : α}
    (found : table.get? key = some entry) (same : rankOf entry' = rankOf entry) :
    Indexes before rankOf (table.insert key entry') ranking where
  sorted := h.sorted
  mem_iff := by
    intro place
    rw [h.mem_iff, Table.get?_insert]
    split
    case isTrue equal => rw [equal, found]; simp [same]
    case isFalse => rfl

theorem nodup_keys (order : StrictOrder before) (h : Indexes before rankOf table ranking) :
    (ranking.map (·.2)).Nodup := by
  rw [List.Nodup, List.pairwise_map]
  refine h.sorted.imp_of_mem ?_
  intro place other here there earlier equal
  obtain ⟨entry, found, rank_eq⟩ := h.mem_iff.mp here
  obtain ⟨entry', found', rank_eq'⟩ := h.mem_iff.mp there
  rw [equal, found'] at found
  cases found
  exact order.irrefl _ (rank_eq.symm.trans rank_eq' ▸ earlier)

theorem keys_perm (order : StrictOrder before) (h : Indexes before rankOf table ranking)
    (nodup : table.keys.Nodup) : (ranking.map (·.2)).Perm table.keys := by
  rw [List.perm_ext_iff_of_nodup (h.nodup_keys order) nodup]
  intro key
  rw [List.mem_map, Table.mem_keys]
  constructor
  · rintro ⟨place, member, rfl⟩
    obtain ⟨entry, found, -⟩ := h.mem_iff.mp member
    exact ⟨entry, found⟩
  · rintro ⟨entry, found⟩
    exact ⟨_, h.mem found, rfl⟩

theorem filter_key (order : StrictOrder before) (h : Indexes before rankOf table ranking)
    (key : κ) :
    ranking.filter (·.2 = key) =
      ((table.get? key).map fun entry => (rankOf entry, key)).toList := by
  cases found : table.get? key with
  | none =>
      rw [Option.map_none, Option.toList_none, List.filter_eq_nil_iff]
      intro place member same
      obtain ⟨entry, there, -⟩ := h.mem_iff.mp member
      rw [of_decide_eq_true same, found] at there
      cases there
  | some entry =>
      rw [Option.map_some, Option.toList_some, ← List.perm_singleton,
        List.perm_ext_iff_of_nodup ((h.nodup_keys order).of_map.filter _) (List.nodup_singleton _)]
      intro place
      rw [List.mem_filter, List.mem_singleton, decide_eq_true_iff]
      constructor
      · rintro ⟨member, same⟩
        exact Prod.ext ((h.rank_eq_iff order found member).mpr same) same
      · rintro rfl
        exact ⟨h.mem found, rfl⟩

theorem length_eq (order : StrictOrder before) (h : Indexes before rankOf table ranking)
    (nodup : table.keys.Nodup) : ranking.length = table.size := by
  have lengths := (h.keys_perm order nodup).length_eq
  rwa [List.length_map, Table.keys, List.length_map] at lengths

end Indexes

end Indexes

end Ranking

namespace Stamp

theorem before_iff {a b : Stamp} :
    a.before b ↔ a.time < b.time ∨ a.time = b.time ∧ a.tick < b.tick := by
  simp [before]

theorem strictOrder_before : Ranking.StrictOrder before where
  irrefl a := by simp [before_iff]
  trans a b c := by simp only [before_iff]; omega

theorem before_or_before {a b : Stamp} (h : a.tick < b.tick) : b.before a ∨ a.before b := by
  rw [before_iff, before_iff]
  omega

end Stamp

end NodeProtocol
