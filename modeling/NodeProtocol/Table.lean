namespace NodeProtocol

structure Table (κ ν : Type) where
  pairs : List (κ × ν)

namespace Table

def empty : Table κ ν := ⟨[]⟩

def size (table : Table κ ν) : Nat :=
  table.pairs.length

def keys (table : Table κ ν) : List κ :=
  table.pairs.map (·.1)

variable [DecidableEq κ]

def get? (table : Table κ ν) (key : κ) : Option ν :=
  (table.pairs.find? (·.1 = key)).map (·.2)

def contains (table : Table κ ν) (key : κ) : Bool :=
  (table.get? key).isSome

def erase (table : Table κ ν) (key : κ) : Table κ ν :=
  ⟨table.pairs.filter (·.1 ≠ key)⟩

def insert (table : Table κ ν) (key : κ) (value : ν) : Table κ ν :=
  ⟨(key, value) :: (table.erase key).pairs⟩

@[simp] theorem get?_empty (key : κ) : (empty : Table κ ν).get? key = none := rfl

theorem get?_erase (table : Table κ ν) (key other : κ) :
    (table.erase key).get? other = if other = key then none else table.get? other := by
  obtain ⟨pairs⟩ := table
  simp only [get?, erase]
  induction pairs with
  | nil => simp
  | cons pair pairs ih => grind

theorem get?_insert (table : Table κ ν) (key other : κ) (value : ν) :
    (table.insert key value).get? other = if other = key then some value else table.get? other := by
  have erased := get?_erase table key other
  by_cases h : other = key
  · simp [get?, insert, h]
  · simp only [if_neg h] at erased ⊢
    rw [← erased]
    simp [get?, insert, Ne.symm h]

theorem mem_of_get? {table : Table κ ν} {key : κ} {value : ν} (h : table.get? key = some value) :
    (key, value) ∈ table.pairs := by
  obtain ⟨pair, found, rfl⟩ := Option.map_eq_some_iff.mp h
  have same : pair.1 = key := by simpa using List.find?_some found
  exact same ▸ List.mem_of_find?_eq_some found

theorem insert_erase (table : Table κ ν) (key : κ) (value : ν) :
    (table.erase key).insert key value = table.insert key value := by
  simp [insert, erase]

theorem mem_keys {table : Table κ ν} {key : κ} :
    key ∈ table.keys ↔ ∃ value, table.get? key = some value := by
  obtain ⟨pairs⟩ := table
  simp only [get?, keys]
  induction pairs with
  | nil => simp
  | cons pair pairs ih =>
    by_cases h : pair.1 = key
    · simp [h]
    · simpa [h, Ne.symm h] using ih

theorem contains_iff {table : Table κ ν} {key : κ} : table.contains key ↔ key ∈ table.keys := by
  rw [contains, Option.isSome_iff_exists, mem_keys]

theorem get?_eq_none_iff {table : Table κ ν} {key : κ} :
    table.get? key = none ↔ key ∉ table.keys := by
  rw [← contains_iff, contains, Bool.not_eq_true, Option.isSome_eq_false_iff,
    Option.isNone_iff_eq_none]

theorem erase_eq_self {table : Table κ ν} {key : κ} (absent : key ∉ table.keys) :
    table.erase key = table := by
  have others : table.pairs.filter (·.1 ≠ key) = table.pairs := by
    rw [List.filter_eq_self]
    intro pair member
    refine decide_eq_true fun same => absent ?_
    exact same ▸ List.mem_map_of_mem member
  rw [erase, others]

theorem erase_insert {table : Table κ ν} {key : κ} (absent : key ∉ table.keys) (value : ν) :
    (table.insert key value).erase key = table := by
  rw [insert, erase, List.filter_cons_of_neg (by simp), erase_eq_self absent]
  exact erase_eq_self absent

theorem nodup_keys_erase {table : Table κ ν} (h : table.keys.Nodup) (key : κ) :
    (table.erase key).keys.Nodup :=
  h.sublist (List.filter_sublist.map _)

theorem nodup_keys_insert {table : Table κ ν} (h : table.keys.Nodup) (key : κ) (value : ν) :
    (table.insert key value).keys.Nodup := by
  refine List.nodup_cons.mpr ⟨?_, nodup_keys_erase h key⟩
  intro member
  obtain ⟨other, found⟩ := mem_keys.mp member
  rw [get?_erase, if_pos rfl] at found
  cases found

end Table

end NodeProtocol
