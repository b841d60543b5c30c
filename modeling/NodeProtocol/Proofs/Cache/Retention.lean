import Mathlib.Data.List.TakeWhile
import NodeProtocol.Proofs.Cache.UseList

namespace NodeProtocol

namespace Cache

open Ranking

variable {κ ν : Type} [DecidableEq κ] {cache : Cache κ ν} {key other : κ} {entry : Entry ν}

theorem nextTick_take (cache : Cache κ ν) (key : κ) :
    (cache.take key).2.nextTick = cache.nextTick := by
  rw [take]
  split <;> rfl

theorem nextTick_foldl_take (places : List (α × κ)) (cache : Cache κ ν) :
    (places.foldl (fun cache place => (cache.take place.2).2) cache).nextTick =
      cache.nextTick := by
  induction places generalizing cache with
  | nil => rfl
  | cons place places ih => exact (ih _).trans (nextTick_take cache place.2)

theorem nextTick_shrink (order : Ranking Nat κ) (cache : Cache κ ν) :
    (shrink order cache).nextTick = cache.nextTick := by
  induction order generalizing cache with
  | nil => rfl
  | cons place order ih =>
      rw [shrink]
      split
      · rfl
      · exact (ih _).trans (nextTick_take cache place.2)

theorem nextTick_put {value : ν} {now : Nat} (isOpen : cache.closed = false) :
    (cache.put key value now).2.nextTick = cache.nextTick + 1 := by
  rw [put, isOpen]
  change (shrink _ ((cache.take key).2.enlist key value now)).nextTick = _
  rw [nextTick_shrink]
  exact congrArg (· + 1) (nextTick_take cache key)

omit [DecidableEq κ] in
theorem low_add_length_le {ranking : Ranking Nat κ} {low high : Nat}
    (sorted : Sorted (fun a b => decide (a < b)) ranking) (ordered : low ≤ high)
    (above : ∀ place ∈ ranking, low ≤ place.1) (below : ∀ place ∈ ranking, place.1 < high) :
    low + ranking.length ≤ high := by
  induction ranking generalizing low with
  | nil => exact ordered
  | cons first rest ih =>
      rw [List.forall_mem_cons] at above below
      obtain ⟨later, sorted⟩ := List.pairwise_cons.mp sorted
      have next : ∀ place ∈ rest, low + 1 ≤ place.1 := by
        intro place member
        have before : first.1 < place.1 := by simpa using later place member
        omega
      have room := ih sorted (by omega) next below.2
      rw [List.length_cons]
      omega

namespace Consistent

theorem get?_shrink {order : Ranking Nat κ} (h : cache.Consistent)
    (follows : cache.recency = order) (found : cache.entries.get? key = some entry)
    (recent : cache.nextTick ≤ entry.tick + cache.capacity) :
    (Cache.shrink order cache).entries.get? key = some entry := by
  induction order generalizing cache with
  | nil => exact found
  | cons place order ih =>
      rw [Cache.shrink]
      split
      case isTrue => exact found
      case isFalse full =>
        have differs : key ≠ place.2 := by
          rintro rfl
          -- An entry that was used least recently leaves no ranks for so many others.
          have first := h.recency.mem found
          have sorted := h.recency.sorted
          have member : place ∈ cache.recency := follows ▸ List.mem_cons_self
          have rank := (h.recency.rank_eq_iff strictOrder_lt found member).mpr rfl
          have above : ∀ other ∈ cache.recency, entry.tick ≤ other.1 := by
            rw [follows, List.forall_mem_cons]
            rw [follows, Sorted, List.pairwise_cons] at sorted
            refine ⟨Nat.le_of_eq rank.symm, fun other member => ?_⟩
            have before : place.1 < other.1 := by simpa using sorted.1 other member
            omega
          have ticks := low_add_length_le sorted (Nat.le_of_lt (h.fits found).tick_lt) above
            h.rank_lt
          rw [h.length_recency] at ticks
          omega
        refine ih (h.take place.2) (h.recency_take follows) ?_ ?_
        · rw [get?_take, if_neg differs, found]
        · rw [nextTick_take, (sameSettings_take cache place.2).capacity]
          exact recent

theorem get?_put_of_recent (h : cache.Consistent) (isOpen : cache.closed = false) {value : ν}
    {now : Nat} (found : cache.entries.get? other = some entry) (differs : other ≠ key)
    (recent : cache.nextTick + 1 ≤ entry.tick + cache.capacity) :
    (cache.put key value now).2.entries.get? other = some entry := by
  rw [Cache.put, isOpen]
  refine (h.take_enlist key value now).get?_shrink rfl ?_ ?_
  · rw [Cache.enlist, Table.get?_insert, if_neg differs, get?_take, if_neg differs, found]
  · change (cache.take key).2.nextTick + 1 ≤ entry.tick + (cache.take key).2.capacity
    rw [nextTick_take, (sameSettings_take cache key).capacity]
    exact recent

theorem get?_insert_self (h : cache.Consistent) (room : 0 < cache.capacity) (key : κ) (value : ν)
    (now : Nat) :
    (cache.insert key value now).2.entries.get? key =
      some ⟨value, now + cache.lifeSpan, ⟨now, cache.nextTick⟩, cache.nextTick⟩ := by
  have settings := sameSettings_take cache key
  refine (h.take_enlist key value now).get?_shrink rfl ?_ ?_
  · rw [Cache.enlist, Table.get?_insert, if_pos rfl, nextTick_take, settings.lifeSpan]
  · change (cache.take key).2.nextTick + 1 ≤ cache.nextTick + (cache.take key).2.capacity
    rw [nextTick_take, settings.capacity]
    omega

theorem get?_put_self (h : cache.Consistent) (isOpen : cache.closed = false)
    (room : 0 < cache.capacity) (key : κ) (value : ν) (now : Nat) :
    ∃ entry, (cache.put key value now).2.entries.get? key = some entry ∧
      entry.tick = cache.nextTick ∧ entry.expiresAt = now + cache.lifeSpan := by
  rw [Cache.put, isOpen]
  exact ⟨_, h.get?_insert_self room key value now, rfl, rfl⟩

end Consistent

structure Swept (now : Nat) (before after : Cache κ ν) : Prop where
  settings : SameSettings after before
  nextTick : after.nextTick = before.nextTick
  consistent : before.Consistent → after.Consistent
  old : ∀ {key entry}, after.entries.get? key = some entry → before.entries.get? key = some entry
  live : ∀ {key entry}, before.entries.get? key = some entry → now < entry.expiresAt →
    after.entries.get? key = some entry

theorem Swept.refl (now : Nat) (cache : Cache κ ν) : Swept now cache cache :=
  ⟨.rfl, rfl, id, id, fun found _ => found⟩

theorem get?_sweep_of_live {now : Nat} (found : cache.entries.get? key = some entry)
    (live : now < entry.expiresAt) : (cache.sweep now).2.entries.get? key = some entry := by
  rw [sweep, get?_foldl_take, if_neg, found]
  intro swept
  obtain ⟨place, member, rfl⟩ := List.mem_map.mp swept
  have dead := List.mem_takeWhile_imp member
  simp [isDead, contains, live?, found, Entry.isLive, live] at dead

theorem swept_sweep {time now : Nat} (h : time ≤ now) (cache : Cache κ ν) :
    Swept now cache (cache.sweep time).2 where
  settings := sameSettings_sweep cache time
  nextTick := nextTick_foldl_take ..
  consistent consistent := consistent.sweep time
  old := get?_of_sweep
  live found alive := get?_sweep_of_live found (Nat.lt_of_le_of_lt h alive)

theorem swept_sweepThrough (cache : Cache κ ν) (interval start stop : Nat) :
    Swept stop cache (cache.sweepThrough interval start stop) := by
  rw [sweepThrough]
  split
  · exact swept_sweep (Nat.div_mul_le_self stop interval) cache
  · exact .refl stop cache

theorem swept_sweepAfter (cache : Cache κ ν) (interval start stop : Nat) :
    Swept stop cache (cache.sweepAfter interval start stop) := by
  rw [sweepAfter]
  split
  · exact swept_sweep (Nat.le_refl stop) cache
  · exact .refl stop cache

theorem remove_of_live {now : Nat} (found : cache.entries.get? key = some entry)
    (live : now < entry.expiresAt) : (cache.remove key now).1 = some entry.value := by
  have alive : entry.isLive now := decide_eq_true live
  rw [remove, live?, found, Option.filter_some, if_pos alive, Option.map_some]

theorem remove_of_dead {now : Nat}
    (h : ∀ {entry}, cache.entries.get? key = some entry → entry.expiresAt ≤ now) :
    (cache.remove key now).1 = none := by
  rw [remove, live?]
  cases found : cache.entries.get? key with
  | none => rfl
  | some entry =>
      have dead : ¬ entry.isLive now := by simpa [Entry.isLive] using h found
      rw [Option.filter_some, if_neg dead, Option.map_none]

end Cache

end NodeProtocol
