import NodeProtocol.Cache.Clocked

namespace NodeProtocol

namespace Cache

variable {κ ν : Type} {cache : Cache κ ν} {key other : κ} {entry : Entry ν}

structure SameSettings (after before : Cache κ ν) : Prop where
  capacity : after.capacity = before.capacity
  lifeSpan : after.lifeSpan = before.lifeSpan
  closed : after.closed = before.closed

theorem SameSettings.rfl : SameSettings cache cache :=
  ⟨Eq.refl _, Eq.refl _, Eq.refl _⟩

theorem SameSettings.trans {after between before : Cache κ ν} (h : SameSettings after between)
    (h' : SameSettings between before) : SameSettings after before :=
  ⟨h.capacity.trans h'.capacity, h.lifeSpan.trans h'.lifeSpan, h.closed.trans h'.closed⟩

variable [DecidableEq κ]

theorem get?_take (cache : Cache κ ν) (key other : κ) :
    (cache.take key).2.entries.get? other =
      if other = key then none else cache.entries.get? other := by
  rw [take]
  split
  case h_1 absent =>
    split
    case isTrue equal => rw [equal, absent]
    case isFalse => rfl
  case h_2 => exact cache.entries.get?_erase key other

theorem get?_of_take (h : (cache.take key).2.entries.get? other = some entry) :
    cache.entries.get? other = some entry := by
  rw [get?_take] at h
  split at h
  · cases h
  · exact h

theorem get?_of_shrink {order : Ranking Nat κ}
    (h : (shrink order cache).entries.get? other = some entry) :
    cache.entries.get? other = some entry := by
  induction order generalizing cache with
  | nil => exact h
  | cons place order ih =>
      rw [shrink] at h
      split at h
      · exact h
      · exact get?_of_take (ih h)

theorem get?_of_insert {value : ν} {now : Nat}
    (h : (cache.insert key value now).2.entries.get? other = some entry) :
    if other = key then entry.value = value else cache.entries.get? other = some entry := by
  have enlisted := get?_of_shrink h
  change ((cache.take key).2.enlist key value now).entries.get? other = some entry at enlisted
  rw [enlist, Table.get?_insert] at enlisted
  split at enlisted
  case isTrue equal =>
    cases enlisted
    rw [if_pos equal]
  case isFalse differs =>
    rw [if_neg differs]
    exact get?_of_take enlisted

theorem get?_of_put {value : ν} {now : Nat} (isOpen : cache.closed = false)
    (h : (cache.put key value now).2.entries.get? other = some entry) :
    if other = key then entry.value = value else cache.entries.get? other = some entry := by
  rw [put, isOpen] at h
  exact get?_of_insert h

theorem get?_remove (cache : Cache κ ν) (key other : κ) (now : Nat) :
    (cache.remove key now).2.entries.get? other =
      if other = key then none else cache.entries.get? other :=
  get?_take cache key other

theorem get?_of_remove (key : κ) (now : Nat)
    (h : (cache.remove key now).2.entries.get? other = some entry) :
    cache.entries.get? other = some entry :=
  get?_of_take h

theorem get?_of_remove_eq_some {value : ν} {now : Nat}
    (h : (cache.remove key now).1 = some value) :
    ∃ entry, cache.entries.get? key = some entry ∧ entry.value = value := by
  obtain ⟨entry, live, same⟩ := Option.map_eq_some_iff.mp h
  exact ⟨entry, Option.eq_some_of_filter_eq_some live, same⟩

theorem get?_foldl_take (places : List (α × κ)) (cache : Cache κ ν) (other : κ) :
    (places.foldl (fun cache place => (cache.take place.2).2) cache).entries.get? other =
      if other ∈ places.map (·.2) then none else cache.entries.get? other := by
  induction places generalizing cache with
  | nil => rfl
  | cons place places ih =>
      rw [List.foldl_cons, ih, get?_take, List.map_cons]
      by_cases equal : other = place.2
      · rw [equal]
        simp
      · rw [if_neg equal]
        simp only [List.mem_cons, equal, false_or]

theorem get?_of_sweep {now : Nat} (h : (cache.sweep now).2.entries.get? other = some entry) :
    cache.entries.get? other = some entry := by
  rw [sweep, get?_foldl_take] at h
  split at h
  · cases h
  · exact h

theorem get?_of_sweepThrough {interval start stop : Nat}
    (h : (cache.sweepThrough interval start stop).entries.get? other = some entry) :
    cache.entries.get? other = some entry := by
  rw [sweepThrough] at h
  split at h
  · exact get?_of_sweep h
  · exact h

theorem get?_of_sweepAfter {interval start stop : Nat}
    (h : (cache.sweepAfter interval start stop).entries.get? other = some entry) :
    cache.entries.get? other = some entry := by
  rw [sweepAfter] at h
  split at h
  · exact get?_of_sweep h
  · exact h

theorem sameSettings_take (cache : Cache κ ν) (key : κ) :
    SameSettings (cache.take key).2 cache := by
  rw [take]
  split <;> exact ⟨rfl, rfl, rfl⟩

theorem sameSettings_foldl_take (places : List (α × κ)) (cache : Cache κ ν) :
    SameSettings (places.foldl (fun cache place => (cache.take place.2).2) cache) cache := by
  induction places generalizing cache with
  | nil => exact .rfl
  | cons place places ih => exact (ih _).trans (sameSettings_take cache place.2)

theorem sameSettings_sweep (cache : Cache κ ν) (now : Nat) :
    SameSettings (cache.sweep now).2 cache :=
  sameSettings_foldl_take _ cache

theorem sameSettings_shrink (order : Ranking Nat κ) (cache : Cache κ ν) :
    SameSettings (shrink order cache) cache := by
  induction order generalizing cache with
  | nil => exact .rfl
  | cons place order ih =>
      rw [shrink]
      split
      · exact .rfl
      · exact (ih _).trans (sameSettings_take cache place.2)

theorem sameSettings_insert (cache : Cache κ ν) (key : κ) (value : ν) (now : Nat) :
    SameSettings (cache.insert key value now).2 cache := by
  have enlisted : SameSettings ((cache.take key).2.enlist key value now) (cache.take key).2 :=
    ⟨rfl, rfl, rfl⟩
  exact (sameSettings_shrink _ _).trans (enlisted.trans (sameSettings_take cache key))

end Cache

end NodeProtocol
