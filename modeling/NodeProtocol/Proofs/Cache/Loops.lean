import NodeProtocol.Proofs.Cache.Retention

namespace NodeProtocol

inductive Loops (turn : α → Option α) : Nat → α → α → Prop
  | ended {state : α} (stops : turn state = none) : Loops turn 0 state state
  | again {n : Nat} {before between after : α} (turns : turn before = some between)
      (rest : Loops turn n between after) : Loops turn (n + 1) before after

theorem not_loops_of_idle {turn : α → Option α} {state after : α} {n : Nat}
    (idle : turn state = some state) : ¬ Loops turn n state after := by
  intro loops
  induction n with
  | zero =>
      cases loops with
      | ended stops => rw [idle] at stops; cases stops
  | succ n ih =>
      cases loops with
      | again turns rest =>
          rw [idle] at turns
          cases turns
          exact ih rest

namespace Cache

open Ranking

variable {κ ν : Type} [DecidableEq κ]

def evictFirst? (cache : Cache κ ν) : Option (Cache κ ν) :=
  match cache.recency with
  | [] => none
  | (_, key) :: _ => if cache.size ≤ cache.capacity then none else some (cache.take key).2

def sweepFirst? (now : Nat) (cache : Cache κ ν) : Option (Cache κ ν) :=
  match cache.insertion with
  | [] => none
  | (_, key) :: _ => if cache.isDead key now then some (cache.take key).2 else none

variable {cache : Cache κ ν} {key : κ}

theorem isDead_take {other : κ} (differs : other ≠ key) (now : Nat) :
    (cache.take key).2.isDead other now = cache.isDead other now := by
  rw [isDead, contains, live?, get?_take, if_neg differs, isDead, contains, live?]

namespace Consistent

theorem size_take_first (h : cache.Consistent) {tick : Nat} {order : Ranking Nat κ}
    (follows : cache.recency = (tick, key) :: order) :
    cache.size = (cache.take key).2.size + 1 := by
  rw [← h.length_recency, ← (h.take key).length_recency, h.recency_take follows, follows,
    List.length_cons]

theorem loops_shrink (h : cache.Consistent) {order : Ranking Nat κ}
    (follows : cache.recency = order) :
    Loops evictFirst? (cache.size - cache.capacity) cache (Cache.shrink order cache) := by
  induction order generalizing cache with
  | nil =>
      have empty : cache.size = 0 := by rw [← h.length_recency, follows, List.length_nil]
      rw [empty, Nat.zero_sub]
      exact .ended (by rw [evictFirst?, follows])
  | cons place order ih =>
      obtain ⟨tick, key⟩ := place
      rw [Cache.shrink]
      split
      case isTrue fits =>
        rw [Nat.sub_eq_zero_of_le fits]
        exact .ended (by rw [evictFirst?, follows]; exact if_pos fits)
      case isFalse full =>
        have rest := ih (h.take key) (h.recency_take follows)
        rw [(sameSettings_take cache key).capacity] at rest
        rw [h.size_take_first follows] at full ⊢
        rw [Nat.succ_sub (by omega)]
        refine .again ?_ rest
        rw [evictFirst?, follows]
        exact if_neg (by rw [h.size_take_first follows]; exact full)

theorem insertion_take (h : cache.Consistent) {stamp : Stamp} {order : Ranking Stamp κ}
    (follows : cache.insertion = (stamp, key) :: order) : (cache.take key).2.insertion = order := by
  have first : (stamp, key) ∈ cache.insertion := follows ▸ List.mem_cons_self
  obtain ⟨entry, found, rfl⟩ := h.insertion.mem_iff.mp first
  have sorted := h.insertion.sorted
  rw [Cache.take, found]
  change cache.insertion.erase entry.inserted = order
  rw [follows] at sorted ⊢
  exact sorted.erase_first Stamp.strictOrder_before

theorem sweep_take_first (h : cache.Consistent) {stamp : Stamp} {order : Ranking Stamp κ}
    {now : Nat} (follows : cache.insertion = (stamp, key) :: order)
    (dead : cache.isDead key now) :
    cache.sweep now = ((cache.take key).2.sweep now).map (· + 1) id := by
  have nodup : (key :: order.map (·.2)).Nodup := by
    have distinct := h.insertion.nodup_keys Stamp.strictOrder_before
    rwa [follows, List.map_cons] at distinct
  -- Taking the key out does not change whether any other one is dead.
  have swept : cache.insertion.takeWhile (fun place => cache.isDead place.2 now) =
      (stamp, key) :: (cache.take key).2.insertion.takeWhile fun place =>
        (cache.take key).2.isDead place.2 now := by
    rw [h.takeWhile_isDead, (h.take key).takeWhile_isDead, h.insertion_take follows, follows,
      List.filter_cons, if_pos dead]
    congr 1
    apply List.filter_congr
    intro place member
    refine (isDead_take ?_ now).symm
    rintro rfl
    exact (List.nodup_cons.mp nodup).1 (List.mem_map_of_mem member)
  rw [Cache.sweep, swept, Cache.sweep]
  rfl

theorem loops_sweep (h : cache.Consistent) (now : Nat) :
    Loops (sweepFirst? now) (cache.sweep now).1 cache (cache.sweep now).2 := by
  generalize follows : cache.insertion = order
  induction order generalizing cache with
  | nil =>
      rw [Cache.sweep, follows]
      exact .ended (by rw [sweepFirst?, follows])
  | cons place order ih =>
      obtain ⟨stamp, key⟩ := place
      by_cases dead : cache.isDead key now
      · rw [h.sweep_take_first follows dead]
        refine .again ?_ (ih (h.take key) (h.insertion_take follows))
        rw [sweepFirst?, follows]
        exact if_pos dead
      · have kept : cache.insertion.takeWhile (fun place => cache.isDead place.2 now) = [] := by
          rw [follows, List.takeWhile_cons, if_neg dead]
        rw [Cache.sweep, kept]
        refine .ended ?_
        rw [sweepFirst?, follows]
        exact if_neg dead

end Consistent

theorem not_loops_sweepFirst {stamp : Stamp} {order : Ranking Stamp κ} {now n : Nat}
    {after : Cache κ ν} (follows : cache.insertion = (stamp, key) :: order)
    (missing : cache.entries.get? key = none) : ¬ Loops (sweepFirst? now) n cache after := by
  apply not_loops_of_idle
  have dead : cache.isDead key now := by
    rw [isDead, contains, live?, missing]
    rfl
  rw [sweepFirst?, follows]
  change (if cache.isDead key now then some (cache.take key).2 else none) = some cache
  rw [if_pos dead, take, missing]

end Cache

end NodeProtocol
