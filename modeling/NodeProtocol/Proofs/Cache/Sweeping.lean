import NodeProtocol.Proofs.Cache.Mirror

namespace NodeProtocol

namespace Table

variable {κ ν : Type} {table : Table κ ν} {key : κ} {value : ν}

def restrict (table : Table κ ν) (keep : κ → Bool) : Table κ ν :=
  ⟨table.pairs.filter (keep ·.1)⟩

variable [DecidableEq κ]

theorem get?_restrict (table : Table κ ν) (keep : κ → Bool) (key : κ) :
    (table.restrict keep).get? key = if keep key then table.get? key else none := by
  obtain ⟨pairs⟩ := table
  simp only [get?, restrict]
  induction pairs with
  | nil => simp
  | cons pair pairs ih => grind

theorem get?_of_mem (nodup : table.keys.Nodup) (member : (key, value) ∈ table.pairs) :
    table.get? key = some value := by
  obtain ⟨other, found⟩ : ∃ other, table.get? key = some other :=
    mem_keys.mp (List.mem_map_of_mem member)
  have same : (key, other) = (key, value) :=
    List.inj_on_of_nodup_map nodup (mem_of_get? found) member rfl
  rw [found, (Prod.mk.inj same).2]

end Table

namespace Ranking

theorem Indexes.erase_eq_filter {ρ κ α : Type} [DecidableEq κ] [DecidableEq ρ]
    {before : ρ → ρ → Bool} {rankOf : α → ρ} {table : Table κ α} {ranking : Ranking ρ κ} {key : κ}
    {entry : α} (order : StrictOrder before) (h : Indexes before rankOf table ranking)
    (found : table.get? key = some entry) :
    ranking.erase (rankOf entry) = ranking.filter (·.2 ≠ key) := by
  apply List.filter_congr
  intro place member
  rw [decide_eq_decide]
  exact not_congr (h.rank_eq_iff order found member)

end Ranking

namespace Cache

open Ranking

variable {κ ν : Type} {cache : Cache κ ν} {key : κ} {entry : Entry ν} {now : Nat}

def restrict (cache : Cache κ ν) (keep : κ → Bool) : Cache κ ν :=
  { cache with
    entries := cache.entries.restrict keep
    recency := cache.recency.filter (keep ·.2)
    insertion := cache.insertion.filter (keep ·.2) }

theorem restrict_restrict (cache : Cache κ ν) (keep keep' : κ → Bool) :
    (cache.restrict keep).restrict keep' = cache.restrict fun key => keep key && keep' key := by
  simp [restrict, Table.restrict, List.filter_filter, Bool.and_comm]

variable [DecidableEq κ]

theorem contains_eq (found : cache.entries.get? key = some entry) (now : Nat) :
    cache.contains key now = decide (now < entry.expiresAt) := by
  rw [contains, live?, found, Option.isSome_filter]
  rfl

namespace Consistent

theorem restrict_congr (h : cache.Consistent) {keep keep' : κ → Bool}
    (same : ∀ {key entry}, cache.entries.get? key = some entry → keep key = keep' key) :
    cache.restrict keep = cache.restrict keep' := by
  have entries : cache.entries.restrict keep = cache.entries.restrict keep' := by
    refine congrArg Table.mk (List.filter_congr fun pair member => ?_)
    exact same (Table.get?_of_mem h.nodup member)
  have recency : cache.recency.filter (keep ·.2) = cache.recency.filter (keep' ·.2) := by
    refine List.filter_congr fun place member => ?_
    obtain ⟨entry, found, -⟩ := h.recency.mem_iff.mp member
    exact same found
  have insertion : cache.insertion.filter (keep ·.2) = cache.insertion.filter (keep' ·.2) := by
    refine List.filter_congr fun place member => ?_
    obtain ⟨entry, found, -⟩ := h.insertion.mem_iff.mp member
    exact same found
  rw [Cache.restrict, entries, recency, insertion, Cache.restrict]

theorem restrict_true (h : cache.Consistent) {keep : κ → Bool}
    (all : ∀ {key entry}, cache.entries.get? key = some entry → keep key) :
    cache.restrict keep = cache := by
  calc cache.restrict keep = cache.restrict fun _ => true := h.restrict_congr fun found => all found
    _ = cache := by simp [Cache.restrict, Table.restrict]

theorem take_eq (h : cache.Consistent) (key : κ) :
    (cache.take key).2 = cache.restrict (· ≠ key) := by
  rw [Cache.take]
  split
  case h_1 absent =>
    refine (h.restrict_true fun found => decide_eq_true ?_).symm
    rintro rfl
    rw [absent] at found
    cases found
  case h_2 entry found =>
    rw [h.recency.erase_eq_filter strictOrder_lt found,
      h.insertion.erase_eq_filter Stamp.strictOrder_before found]
    rfl

theorem foldl_take_eq (h : cache.Consistent) (places : List (α × κ)) :
    places.foldl (fun cache place => (cache.take place.2).2) cache =
      cache.restrict (· ∉ places.map (·.2)) := by
  induction places generalizing cache with
  | nil => exact (h.restrict_true fun _ => by simp).symm
  | cons place places ih =>
      rw [List.foldl_cons, ih (h.take place.2), h.take_eq, restrict_restrict]
      congr 1
      funext key
      rw [← Bool.decide_and, decide_eq_decide, List.map_cons, List.mem_cons, not_or]

/-- The keys that are swept are the dead ones, wherever the first one that lives may stand. -/
theorem sweep_eq (h : cache.Consistent) (now : Nat) :
    (cache.sweep now).2 = cache.restrict (cache.contains · now) := by
  rw [Cache.sweep, h.foldl_take_eq, h.takeWhile_isDead]
  apply h.restrict_congr
  intro key entry found
  rw [Bool.eq_iff_iff, decide_eq_true_iff, h.mem_swept_iff found, isDead, Bool.not_eq_true',
    Bool.not_eq_false]

theorem get?_sweep (h : cache.Consistent) (now : Nat) (key : κ) :
    (cache.sweep now).2.entries.get? key =
      (cache.entries.get? key).filter (now < ·.expiresAt) := by
  rw [h.sweep_eq]
  change (cache.entries.restrict (cache.contains · now)).get? key = _
  rw [Table.get?_restrict, contains, live?]
  cases cache.entries.get? key with
  | none => rfl
  | some entry =>
      by_cases live : now < entry.expiresAt
      · simp [Option.filter, Entry.isLive, live]
      · simp [Option.filter, Entry.isLive, live]

theorem contains_sweep (h : cache.Consistent) (now : Nat) (key : κ) :
    (cache.sweep now).2.entries.contains key = cache.contains key now := by
  rw [Table.contains, h.get?_sweep]
  rfl

theorem contains_sweep_of_le (h : cache.Consistent) {earlier later : Nat}
    (ordered : earlier ≤ later) (key : κ) :
    (cache.sweep earlier).2.contains key later = cache.contains key later := by
  rw [contains, live?, h.get?_sweep, Option.filter_filter, contains, live?]
  congr 2
  funext entry
  rw [Entry.isLive, ← Bool.decide_and, decide_eq_decide]
  omega

theorem sweep_sweep (h : cache.Consistent) {earlier later : Nat} (ordered : earlier ≤ later) :
    ((cache.sweep earlier).2.sweep later).2 = (cache.sweep later).2 := by
  rw [(h.sweep earlier).sweep_eq, funext (h.contains_sweep_of_le ordered), h.sweep_eq,
    restrict_restrict, h.sweep_eq]
  apply h.restrict_congr
  intro key entry found
  rw [contains_eq found, contains_eq found, ← Bool.decide_and, decide_eq_decide]
  omega

theorem count_sweep_entries (h : cache.Consistent) (now : Nat) :
    (cache.sweep now).1 = cache.entries.pairs.countP (·.2.expiresAt ≤ now) := by
  rw [h.count_sweep_keys, Table.keys, List.countP_map]
  apply List.countP_congr
  intro pair member
  rw [Function.comp_apply, isDead_eq (Table.get?_of_mem h.nodup member)]

theorem contains_of_mem_dropWhile (h : cache.Consistent) (now : Nat) :
    ∀ place ∈ cache.insertion.dropWhile (fun place => cache.isDead place.2 now),
      cache.contains place.2 now := by
  intro place member
  have lives := forall_mem_dropWhile (h.pairwise_isDead now) place member
  rwa [isDead, Bool.not_eq_true', Bool.not_eq_false] at lives

end Consistent

theorem sweep_exact (config : Config) (edits : List (Nat × Edit κ ν)) (now : Nat) :
    let cache := (ofConfig config).edits edits
    let after := (cache.sweep now).2
    Loops (sweepFirst? now) (cache.sweep now).1 cache after ∧
    (cache.sweep now).1 = cache.entries.pairs.countP (·.2.expiresAt ≤ now) ∧
    (∀ key, after.entries.get? key = (cache.entries.get? key).filter (now < ·.expiresAt)) ∧
    after.recency = cache.recency.filter (after.entries.contains ·.2) ∧
    after.insertion = cache.insertion.filter (after.entries.contains ·.2) ∧
    ∀ place ∈ cache.insertion.dropWhile (fun place => cache.isDead place.2 now),
      cache.contains place.2 now := by
  intro cache after
  have h : cache.Consistent := ((kept_ofConfig config).edits edits).consistent
  have contains : after.entries.contains = (cache.contains · now) := funext (h.contains_sweep now)
  refine ⟨h.loops_sweep now, h.count_sweep_entries now, h.get?_sweep now, ?_, ?_,
    h.contains_of_mem_dropWhile now⟩
  · rw [contains]
    exact congrArg Cache.recency (h.sweep_eq now)
  · rw [contains]
    exact congrArg Cache.insertion (h.sweep_eq now)

theorem sweep_exact_touched :
    let cache : Cache Nat Nat := (ofConfig { capacity := 3, lifeSpan := 5 }).edits
      [(0, .insert 1 10), (3, .insert 2 20), (3, .insert 3 30), (4, .touch 1 (· + 1))]
    let after := (cache.sweep 6).2
    Loops (sweepFirst? 6) 1 cache after ∧ after.entries.get? 1 = none ∧
    after.recency = [(1, 2), (2, 3)] ∧ after.insertion = [(⟨3, 1⟩, 2), (⟨3, 2⟩, 3)] ∧
    cache.contains 3 6 := by
  obtain ⟨loops, -, entries, recency, insertion, living⟩ :=
    sweep_exact { capacity := 3, lifeSpan := 5 }
      [(0, .insert 1 10), (3, .insert 2 20), (3, .insert 3 30), (4, .touch 1 (· + 1))] 6
  exact ⟨loops, entries 1, recency, insertion, living (⟨3, 2⟩, 3) (by decide)⟩

end Cache

end NodeProtocol
