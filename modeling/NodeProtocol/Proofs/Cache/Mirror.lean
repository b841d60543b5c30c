import NodeProtocol.Proofs.Cache.Loops

namespace NodeProtocol

namespace Cache

open Ranking

variable {κ ν : Type}

inductive Edit (κ ν : Type)
  | insert (key : κ) (value : ν)
  | touch (key : κ) (change : ν → ν)
  | take (key : κ)
  | sweep
  | clear

def Entry.ticks (entry : Entry ν) : List Nat :=
  [entry.tick, entry.inserted.tick]

variable [DecidableEq κ]

def edit (now : Nat) (edit : Edit κ ν) (cache : Cache κ ν) : Cache κ ν :=
  match edit with
  | .insert key value => (cache.insert key value now).2
  | .touch key change => (cache.update key change now).2
  | .take key => (cache.take key).2
  | .sweep => (cache.sweep now).2
  | .clear => cache.clear

def edits (edits : List (Nat × Edit κ ν)) (cache : Cache κ ν) : Cache κ ν :=
  edits.foldl (fun cache step => cache.edit step.1 step.2) cache

structure Mirrored (cache : Cache κ ν) : Prop where
  nodup : cache.entries.keys.Nodup
  recency : ∀ key, cache.recency.filter (·.2 = key) =
    ((cache.entries.get? key).map fun entry => (entry.tick, key)).toList
  recency_sorted : Sorted (fun a b => decide (a < b)) cache.recency
  insertion : ∀ key, cache.insertion.filter (·.2 = key) =
    ((cache.entries.get? key).map fun entry => (entry.inserted, key)).toList
  insertion_sorted : Sorted Stamp.before cache.insertion

def TicksApart (cache : Cache κ ν) : Prop :=
  ∀ key other entry entry', cache.entries.get? key = some entry →
    cache.entries.get? other = some entry' → key ≠ other → entry.ticks.Disjoint entry'.ticks

variable {cache after : Cache κ ν} {key : κ} {entry : Entry ν} {config : Config}

theorem Consistent.mirrored (h : cache.Consistent) : cache.Mirrored where
  nodup := h.nodup
  recency := h.recency.filter_key strictOrder_lt
  recency_sorted := h.recency.sorted
  insertion := h.insertion.filter_key Stamp.strictOrder_before
  insertion_sorted := h.insertion.sorted

theorem Entry.Fits.ticks_lt {lifeSpan nextTick : Nat} (h : entry.Fits lifeSpan nextTick) :
    ∀ tick ∈ entry.ticks, tick < nextTick := by
  intro tick member
  rcases List.mem_pair.mp member with rfl | rfl
  · exact h.tick_lt
  · exact h.stamp_lt

namespace TicksApart

theorem of_old (h : cache.TicksApart)
    (old : ∀ {key entry}, after.entries.get? key = some entry →
      cache.entries.get? key = some entry) : after.TicksApart := by
  intro key other entry entry' here there differs
  exact h _ _ _ _ (old here) (old there) differs

theorem insert (h : cache.TicksApart) (inserted : after.entries = cache.entries.insert key entry)
    (apart : ∀ {other entry'}, cache.entries.get? other = some entry' → other ≠ key →
      entry.ticks.Disjoint entry'.ticks) : after.TicksApart := by
  intro first second entry₁ entry₂ here there differs
  rw [inserted, Table.get?_insert] at here there
  split at here
  case isTrue equal =>
    cases here
    rw [if_neg (fun same => differs (equal.trans same.symm))] at there
    exact apart there (fun same => differs (equal.trans same.symm))
  case isFalse other =>
    split at there
    case isTrue =>
      cases there
      exact List.disjoint_symm (apart here other)
    case isFalse => exact h _ _ _ _ here there differs

theorem enlist (h : cache.TicksApart) (consistent : cache.Consistent) (value : ν) (now : Nat) :
    (cache.enlist key value now).TicksApart := by
  refine h.insert rfl ?_
  intro other entry' there _
  have fresh : cache.nextTick ∉ entry'.ticks :=
    fun member => Nat.lt_irrefl _ ((consistent.fits there).ticks_lt _ member)
  exact List.disjoint_cons_left.mpr ⟨fresh, List.singleton_disjoint.mpr fresh⟩

theorem renew (h : cache.TicksApart) (consistent : cache.Consistent)
    (found : cache.entries.get? key = some entry) (value : ν) :
    (cache.renew key { entry with value }).TicksApart := by
  refine h.insert rfl ?_
  intro other entry' there differs
  have fresh : cache.nextTick ∉ entry'.ticks :=
    fun member => Nat.lt_irrefl _ ((consistent.fits there).ticks_lt _ member)
  have kept := h _ _ _ _ found there differs.symm
  exact List.disjoint_cons_left.mpr ⟨fresh, (List.disjoint_cons_left.mp kept).2⟩

end TicksApart

namespace Consistent

theorem size_take_le (h : cache.Consistent) (key : κ) : (cache.take key).2.size ≤ cache.size := by
  rw [← h.length_uses, ← (h.take key).length_uses, h.uses_take]
  exact List.length_filter_le ..

theorem size_enlist (h : cache.Consistent) (key : κ) (value : ν) (now : Nat) :
    ((cache.take key).2.enlist key value now).size = (cache.take key).2.size + 1 := by
  have absent : (cache.take key).2.entries.get? key = none := by
    rw [get?_take, if_pos rfl]
  rw [← (h.take_enlist key value now).length_uses, (h.take key).uses_enlist absent,
    List.length_append, (h.take key).length_uses, List.length_singleton]

theorem size_insert_le (h : cache.Consistent) (key : κ) (value : ν) (now : Nat) :
    (cache.insert key value now).2.size ≤ cache.capacity := by
  rw [← (h.insert key value now).length_uses, h.uses_insert, List.length_drop]
  omega

theorem size_renew_le (h : cache.Consistent) (found : cache.entries.get? key = some entry)
    (value : ν) : (cache.renew key { entry with value }).size ≤ cache.size := by
  have member : entry.toUse key ∈ cache.uses := (mem_usesBy h.recency).mpr ⟨entry, found, rfl⟩
  have fewer : (cache.uses.filter (·.key ≠ key)).length < cache.uses.length :=
    List.length_filter_lt_length_iff_exists.mpr ⟨_, member, by simp [Entry.toUse]⟩
  rw [← (h.renew found value).length_uses, h.uses_renew found, ← h.length_uses,
    List.length_append]
  exact fewer

theorem size_sweep_le (h : cache.Consistent) (now : Nat) :
    (cache.sweep now).2.size ≤ cache.size := by
  rw [← h.length_uses, ← (h.sweep now).length_uses, h.uses_sweep]
  exact List.length_filter_le ..

end Consistent

structure Kept (config : Config) (cache : Cache κ ν) : Prop where
  consistent : cache.Consistent
  apart : cache.TicksApart
  capacity : cache.capacity = config.capacity
  lifeSpan : cache.lifeSpan = config.lifeSpan
  size_le : cache.size ≤ config.capacity

theorem kept_ofConfig (config : Config) : Kept config (ofConfig config : Cache κ ν) where
  consistent := consistent_ofConfig config
  apart := by
    intro _ _ _ _ found
    cases found
  capacity := rfl
  lifeSpan := rfl
  size_le := Nat.zero_le _

namespace Kept

theorem of_old (h : Kept config cache) (settings : SameSettings after cache)
    (consistent : after.Consistent) (size_le : after.size ≤ cache.size)
    (old : ∀ {key entry}, after.entries.get? key = some entry →
      cache.entries.get? key = some entry) : Kept config after where
  consistent := consistent
  apart := h.apart.of_old old
  capacity := settings.capacity.trans h.capacity
  lifeSpan := settings.lifeSpan.trans h.lifeSpan
  size_le := Nat.le_trans size_le h.size_le

theorem insert (h : Kept config cache) (key : κ) (value : ν) (now : Nat) :
    Kept config (cache.insert key value now).2 where
  consistent := h.consistent.insert key value now
  apart := by
    have taken : (cache.take key).2.TicksApart := h.apart.of_old get?_of_take
    exact (taken.enlist (h.consistent.take key) value now).of_old get?_of_shrink
  capacity := (sameSettings_insert cache key value now).capacity.trans h.capacity
  lifeSpan := (sameSettings_insert cache key value now).lifeSpan.trans h.lifeSpan
  size_le := h.capacity ▸ h.consistent.size_insert_le key value now

theorem update (h : Kept config cache) (key : κ) (change : ν → ν) (now : Nat) :
    Kept config (cache.update key change now).2 := by
  rw [Cache.update, withValue]
  split
  case h_1 => exact h
  case h_2 entry live =>
    have found : cache.entries.get? key = some entry := Option.eq_some_of_filter_eq_some live
    exact
      { consistent := h.consistent.renew found _
        apart := h.apart.renew h.consistent found _
        capacity := h.capacity
        lifeSpan := h.lifeSpan
        size_le := Nat.le_trans (h.consistent.size_renew_le found _) h.size_le }

theorem edit (h : Kept config cache) (now : Nat) (edit : Edit κ ν) :
    Kept config (cache.edit now edit) := by
  cases edit with
  | insert key value => exact h.insert key value now
  | touch key change => exact h.update key change now
  | take key =>
      exact h.of_old (sameSettings_take cache key) (h.consistent.take key)
        (h.consistent.size_take_le key) get?_of_take
  | sweep =>
      exact h.of_old (sameSettings_sweep cache now) (h.consistent.sweep now)
        (h.consistent.size_sweep_le now) get?_of_sweep
  | clear =>
      exact
        { consistent := .clear
          apart := fun _ _ _ _ found => by cases found
          capacity := h.capacity
          lifeSpan := h.lifeSpan
          size_le := Nat.zero_le _ }

theorem edits (h : Kept config cache) (edits : List (Nat × Edit κ ν)) :
    Kept config (cache.edits edits) := by
  induction edits generalizing cache with
  | nil => exact h
  | cons step edits ih => exact ih (h.edit step.1 step.2)

theorem loops_insert (h : Kept config cache) (key : κ) (value : ν) (now : Nat) :
    ∃ n ≤ 1, Loops evictFirst? n ((cache.take key).2.enlist key value now)
      (cache.insert key value now).2 := by
  have loops := (h.consistent.take_enlist key value now).loops_shrink rfl
  refine ⟨_, ?_, loops⟩
  have capacity : ((cache.take key).2.enlist key value now).capacity = cache.capacity :=
    (sameSettings_take cache key).capacity
  have taken := h.consistent.size_take_le key
  have bound := h.size_le
  rw [capacity, h.capacity, h.consistent.size_enlist]
  omega

end Kept

theorem mirrored_edits (config : Config) (room : 1 ≤ config.capacity)
    (edits : List (Nat × Edit κ ν)) :
    let cache := (ofConfig config).edits edits
    cache.Mirrored ∧
    cache.TicksApart ∧
    (∀ {key entry}, cache.entries.get? key = some entry →
      (∀ tick ∈ entry.ticks, tick < cache.nextTick) ∧
      entry.expiresAt = entry.inserted.time + config.lifeSpan) ∧
    cache.size ≤ config.capacity ∧
    (∀ key value now,
      (∃ n ≤ 1, Loops evictFirst? n ((cache.take key).2.enlist key value now)
        (cache.insert key value now).2) ∧
      (cache.insert key value now).2.entries.get? key =
        some ⟨value, now + config.lifeSpan, ⟨now, cache.nextTick⟩, cache.nextTick⟩) ∧
    (∀ now, Loops (sweepFirst? now) (cache.sweep now).1 cache (cache.sweep now).2) ∧
    ∀ (astray : Cache κ ν) (now : Nat) (stamp : Stamp) (key : κ) (order : Ranking Stamp κ),
      astray.insertion = (stamp, key) :: order → astray.entries.get? key = none →
        ∀ n stop, ¬ Loops (sweepFirst? now) n astray stop := by
  intro cache
  have kept : Kept config cache := (kept_ofConfig config).edits edits
  refine ⟨kept.consistent.mirrored, kept.apart, ?_, kept.size_le, ?_, kept.consistent.loops_sweep,
    ?_⟩
  · intro key entry found
    have fits := kept.consistent.fits found
    exact ⟨fits.ticks_lt, kept.lifeSpan ▸ fits.expiresAt_eq⟩
  · intro key value now
    refine ⟨kept.loops_insert key value now, ?_⟩
    rw [kept.consistent.get?_insert_self (kept.capacity ▸ room), kept.lifeSpan]
  · intro astray now stamp key order follows missing n stop
    exact not_loops_sweepFirst follows missing

theorem mirrored_edits_one_place :
    let cache : Cache Nat Nat := (ofConfig { capacity := 1, lifeSpan := 5 }).edits
      [(0, .insert 1 10), (3, .touch 1 (· + 1)), (2, .insert 2 20), (4, .touch 2 (· + 1))]
    cache.Mirrored ∧ cache.recency = [(3, 2)] ∧ cache.insertion = [(⟨2, 2⟩, 2)] ∧
    Loops (sweepFirst? 7) 1 cache (cache.sweep 7).2 ∧ (cache.sweep 7).2.size = 0 := by
  have kept := mirrored_edits { capacity := 1, lifeSpan := 5 } (Nat.le_refl 1)
    [(0, .insert 1 10), (3, .touch 1 (· + 1)), (2, .insert 2 20), (4, .touch 2 (· + 1))]
  obtain ⟨mirrored, -, -, -, -, sweeps, -⟩ := kept
  exact ⟨mirrored, rfl, rfl, sweeps 7, rfl⟩

end Cache

end NodeProtocol
