import NodeProtocol.Proofs.Cache.Ranking
import NodeProtocol.Proofs.Cache.Entries

namespace NodeProtocol

namespace Cache

open Ranking

variable {κ ν : Type} [DecidableEq κ]

structure Entry.Fits (lifeSpan nextTick : Nat) (entry : Entry ν) : Prop where
  expiresAt_eq : entry.expiresAt = entry.inserted.time + lifeSpan
  tick_lt : entry.tick < nextTick
  stamp_lt : entry.inserted.tick < nextTick

structure Consistent (cache : Cache κ ν) : Prop where
  nodup : cache.entries.keys.Nodup
  recency : Indexes (fun a b => decide (a < b)) Entry.tick cache.entries cache.recency
  insertion : Indexes Stamp.before Entry.inserted cache.entries cache.insertion
  fits : ∀ {key entry}, cache.entries.get? key = some entry →
    entry.Fits cache.lifeSpan cache.nextTick

theorem Entry.Fits.mono {lifeSpan nextTick : Nat} {entry : Entry ν}
    (h : entry.Fits lifeSpan nextTick) : entry.Fits lifeSpan (nextTick + 1) where
  expiresAt_eq := h.expiresAt_eq
  tick_lt := Nat.lt_succ_of_lt h.tick_lt
  stamp_lt := Nat.lt_succ_of_lt h.stamp_lt

theorem consistent_ofConfig (config : Config) : (ofConfig config : Cache κ ν).Consistent where
  nodup := List.nodup_nil
  recency := .empty
  insertion := .empty
  fits found := by cases found

namespace Consistent

variable {cache : Cache κ ν} {key : κ} {entry : Entry ν}

theorem rank_lt (h : cache.Consistent) : ∀ place ∈ cache.recency, place.1 < cache.nextTick := by
  intro place member
  obtain ⟨entry, found, rank_eq⟩ := h.recency.mem_iff.mp member
  exact rank_eq ▸ (h.fits found).tick_lt

theorem stamp_lt (h : cache.Consistent) :
    ∀ place ∈ cache.insertion, place.1.tick < cache.nextTick := by
  intro place member
  obtain ⟨entry, found, rank_eq⟩ := h.insertion.mem_iff.mp member
  exact rank_eq ▸ (h.fits found).stamp_lt

theorem length_recency (h : cache.Consistent) : cache.recency.length = cache.size :=
  h.recency.length_eq strictOrder_lt h.nodup

theorem take (h : cache.Consistent) (key : κ) : (cache.take key).2.Consistent := by
  rw [Cache.take]
  split
  case h_1 => exact h
  case h_2 entry found =>
    exact
      { nodup := Table.nodup_keys_erase h.nodup key
        recency := h.recency.erase strictOrder_lt found
        insertion := h.insertion.erase Stamp.strictOrder_before found
        fits := by
          intro other entry' there
          rw [Table.get?_erase] at there
          split at there
          · cases there
          · exact h.fits there }

theorem enlist (h : cache.Consistent) (absent : cache.entries.get? key = none) (value : ν)
    (now : Nat) : (cache.enlist key value now).Consistent where
  nodup := Table.nodup_keys_insert h.nodup _ _
  recency := by
    refine h.recency.insert strictOrder_lt absent ?_
    intro place member
    exact .inr (decide_eq_true (h.rank_lt place member))
  insertion := by
    refine h.insertion.insert Stamp.strictOrder_before absent ?_
    intro place member
    exact Stamp.before_or_before (h.stamp_lt place member)
  fits := by
    intro other entry found
    rw [Cache.enlist, Table.get?_insert] at found
    split at found
    · cases found
      exact ⟨rfl, Nat.lt_succ_self _, Nat.lt_succ_self _⟩
    · exact (h.fits found).mono

theorem renew (h : cache.Consistent) (found : cache.entries.get? key = some entry) (value : ν) :
    (cache.renew key { entry with value }).Consistent where
  nodup := Table.nodup_keys_insert h.nodup _ _
  recency := by
    rw [Cache.renew, ← Table.insert_erase]
    refine (h.recency.erase strictOrder_lt found).insert strictOrder_lt ?_ ?_
    · rw [Table.get?_erase, if_pos rfl]
    · intro place member
      exact .inr (decide_eq_true (h.rank_lt place (mem_erase.mp member).1))
  insertion := h.insertion.replace found rfl
  fits := by
    intro other entry' found'
    have fits := h.fits found
    rw [Cache.renew, Table.get?_insert] at found'
    split at found'
    · cases found'
      exact ⟨fits.expiresAt_eq, Nat.lt_succ_self _, Nat.lt_succ_of_lt fits.stamp_lt⟩
    · exact (h.fits found').mono

theorem shrink {order : Ranking Nat κ} (h : cache.Consistent) :
    (Cache.shrink order cache).Consistent := by
  induction order generalizing cache with
  | nil => exact h
  | cons place order ih =>
      rw [Cache.shrink]
      split
      · exact h
      · exact ih (h.take place.2)

theorem take_enlist (h : cache.Consistent) (key : κ) (value : ν) (now : Nat) :
    ((cache.take key).2.enlist key value now).Consistent := by
  refine (h.take key).enlist ?_ value now
  rw [get?_take, if_pos rfl]

theorem insert (h : cache.Consistent) (key : κ) (value : ν) (now : Nat) :
    (cache.insert key value now).2.Consistent :=
  (h.take_enlist key value now).shrink

theorem put (h : cache.Consistent) (key : κ) (value : ν) (now : Nat) :
    (cache.put key value now).2.Consistent := by
  rw [Cache.put]
  split
  · exact h
  · exact h.insert key value now

theorem withValue (h : cache.Consistent) (key : κ) (run : ν → ρ × ν) (now : Nat) :
    (cache.withValue key run now).2.Consistent := by
  rw [Cache.withValue]
  split
  case h_1 => exact h
  case h_2 entry live =>
    exact h.renew (Option.eq_some_of_filter_eq_some live) (run entry.value).2

theorem remove (h : cache.Consistent) (key : κ) (now : Nat) :
    (cache.remove key now).2.Consistent :=
  h.take key

theorem foldl_take (h : cache.Consistent) (places : List (α × κ)) :
    (places.foldl (fun cache place => (cache.take place.2).2) cache).Consistent := by
  induction places generalizing cache with
  | nil => exact h
  | cons place places ih => exact ih (h.take place.2)

theorem sweep (h : cache.Consistent) (now : Nat) : (cache.sweep now).2.Consistent :=
  h.foldl_take _

theorem clear : cache.clear.Consistent where
  nodup := List.nodup_nil
  recency := .empty
  insertion := .empty
  fits found := by cases found

end Consistent

end Cache

end NodeProtocol
