import NodeProtocol.Proofs.Cache.Consistent

/-!
# The list of uses

The plain account of a cache: its keys with their values and times of death in one list, the key
that was used last at the end. `Cache.useList` reads this list off a cache, and on a consistent
cache every change of the table and the rankings is one change of the list.
-/

namespace NodeProtocol

structure Use (κ ν : Type) where
  key : κ
  value : ν
  expiresAt : Nat

structure UseList (κ ν : Type) where
  capacity : Nat
  lifeSpan : Nat
  uses : List (Use κ ν)
  closed : Bool

namespace UseList

variable {κ ν ρ : Type}

def ofConfig (config : Cache.Config) : UseList κ ν :=
  { capacity := config.capacity, lifeSpan := config.lifeSpan, uses := [], closed := false }

def size (list : UseList κ ν) : Nat :=
  list.uses.length

def sweep (list : UseList κ ν) (now : Nat) : Nat × UseList κ ν :=
  ((list.uses.filter (·.expiresAt ≤ now)).length,
    { list with uses := list.uses.filter (now < ·.expiresAt) })

def clear (list : UseList κ ν) : UseList κ ν :=
  { list with uses := [], closed := true }

variable [DecidableEq κ]

def find? (list : UseList κ ν) (key : κ) : Option (Use κ ν) :=
  list.uses.find? (·.key = key)

def live? (list : UseList κ ν) (key : κ) (now : Nat) : Option (Use κ ν) :=
  (list.find? key).filter (now < ·.expiresAt)

def without (list : UseList κ ν) (key : κ) : List (Use κ ν) :=
  list.uses.filter (·.key ≠ key)

def put (list : UseList κ ν) (key : κ) (value : ν) (now : Nat) :
    Except Cache.Error (Option ν) × UseList κ ν :=
  if list.closed then (.error .closed, list)
  else
    let uses := list.without key ++ [⟨key, value, now + list.lifeSpan⟩]
    (.ok ((list.find? key).map (·.value)),
      { list with uses := uses.drop (uses.length - list.capacity) })

def withValue (list : UseList κ ν) (key : κ) (run : ν → ρ × ν) (now : Nat) :
    Option ρ × UseList κ ν :=
  match list.live? key now with
  | none => (none, list)
  | some use =>
    let (answer, value) := run use.value
    (some answer, { list with uses := list.without key ++ [{ use with value }] })

def get (list : UseList κ ν) (key : κ) (now : Nat) : Option ν × UseList κ ν :=
  list.withValue key (fun value => (value, value)) now

def remove (list : UseList κ ν) (key : κ) (now : Nat) : Option ν × UseList κ ν :=
  ((list.live? key now).map (·.value), { list with uses := list.without key })

def contains (list : UseList κ ν) (key : κ) (now : Nat) : Bool :=
  (list.live? key now).isSome

end UseList

namespace Cache

open Ranking

variable {κ ν : Type}

def Entry.toUse (entry : Entry ν) (key : κ) : Use κ ν :=
  ⟨key, entry.value, entry.expiresAt⟩

variable [DecidableEq κ]

def usesBy (recency : Ranking Nat κ) (entries : Table κ (Entry ν)) : List (Use κ ν) :=
  recency.filterMap fun place => (entries.get? place.2).map (·.toUse place.2)

def uses (cache : Cache κ ν) : List (Use κ ν) :=
  usesBy cache.recency cache.entries

def useList (cache : Cache κ ν) : UseList κ ν :=
  { capacity := cache.capacity
    lifeSpan := cache.lifeSpan
    uses := cache.uses
    closed := cache.closed }

section UsesBy

variable {entries : Table κ (Entry ν)} {recency : Ranking Nat κ} {key : κ} {entry : Entry ν}
  (h : Indexes (fun a b => decide (a < b)) Entry.tick entries recency)

include h

theorem mem_usesBy {use : Use κ ν} :
    use ∈ usesBy recency entries ↔
      ∃ entry, entries.get? use.key = some entry ∧ entry.toUse use.key = use := by
  rw [usesBy, List.mem_filterMap]
  constructor
  · rintro ⟨place, -, mapped⟩
    obtain ⟨entry, found, rfl⟩ := Option.map_eq_some_iff.mp mapped
    exact ⟨entry, found, rfl⟩
  · rintro ⟨entry, found, equal⟩
    refine ⟨_, h.mem found, ?_⟩
    rw [found, Option.map_some, equal]

theorem keys_usesBy : (usesBy recency entries).map (·.key) = recency.map (·.2) := by
  rw [usesBy, List.map_filterMap, ← List.filterMap_eq_map]
  apply List.filterMap_congr
  intro place member
  obtain ⟨entry, found, -⟩ := h.mem_iff.mp member
  rw [found]
  rfl

theorem usesBy_erase (found : entries.get? key = some entry) :
    usesBy (recency.erase entry.tick) (entries.erase key) =
      (usesBy recency entries).filter (·.key ≠ key) := by
  rw [usesBy, usesBy, List.filter_filterMap, Ranking.erase, List.filterMap_filter]
  apply List.filterMap_congr
  intro place member
  have same_iff := h.rank_eq_iff strictOrder_lt found member
  obtain ⟨entry', there, -⟩ := h.mem_iff.mp member
  by_cases same : place.2 = key
  · simp [same_iff, same, found, Entry.toUse, Option.filter]
  · simp [same_iff, same, there, Entry.toUse, Option.filter, Table.get?_erase]

theorem usesBy_insert (absent : entries.get? key = none)
    (latest : ∀ place ∈ recency, place.1 < entry.tick) :
    usesBy (Ranking.insert (fun a b => decide (a < b)) entry.tick key recency)
      (entries.insert key entry) = usesBy recency entries ++ [entry.toUse key] := by
  rw [insert_eq_append, usesBy, List.filterMap_append]
  · congr 1
    · apply List.filterMap_congr
      intro place member
      obtain ⟨entry', found, -⟩ := h.mem_iff.mp member
      have differs : place.2 ≠ key := by
        intro equal
        rw [equal, absent] at found
        cases found
      rw [Table.get?_insert, if_neg differs]
    · simp [Table.get?_insert]
  · intro place member
    simpa using Nat.le_of_lt (latest place member)

end UsesBy

namespace Consistent

variable {cache : Cache κ ν} {key : κ} {entry : Entry ν}

theorem find?_uses (h : cache.Consistent) (key : κ) :
    cache.uses.find? (·.key = key) = (cache.entries.get? key).map (·.toUse key) := by
  cases search : cache.uses.find? (·.key = key) with
  | none =>
      cases found : cache.entries.get? key with
      | none => rfl
      | some entry =>
          have member : entry.toUse key ∈ cache.uses :=
            (mem_usesBy h.recency).mpr ⟨entry, found, rfl⟩
          have differs := List.find?_eq_none.mp search _ member
          simp [Entry.toUse] at differs
  | some use =>
      have same : use.key = key := by simpa using List.find?_some search
      obtain ⟨entry, found, equal⟩ :=
        (mem_usesBy h.recency).mp (List.mem_of_find?_eq_some search)
      rw [same] at found equal
      rw [found, Option.map_some, equal]

theorem length_uses (h : cache.Consistent) : cache.uses.length = cache.size := by
  have lengths := congrArg List.length (keys_usesBy h.recency)
  rwa [List.length_map, List.length_map, h.length_recency] at lengths

theorem uses_take (h : cache.Consistent) (key : κ) :
    (cache.take key).2.uses = cache.uses.filter (·.key ≠ key) := by
  rw [Cache.take]
  split
  case h_1 absent =>
    rw [eq_comm, List.filter_eq_self]
    intro use member
    obtain ⟨entry, found, -⟩ := (mem_usesBy h.recency).mp member
    refine decide_eq_true ?_
    intro equal
    rw [equal, absent] at found
    cases found
  case h_2 entry found => exact usesBy_erase h.recency found

theorem uses_enlist (h : cache.Consistent) (absent : cache.entries.get? key = none) (value : ν)
    (now : Nat) :
    (cache.enlist key value now).uses = cache.uses ++ [⟨key, value, now + cache.lifeSpan⟩] :=
  usesBy_insert h.recency absent h.rank_lt

theorem uses_renew (h : cache.Consistent) (found : cache.entries.get? key = some entry)
    (value : ν) :
    (cache.renew key { entry with value }).uses =
      cache.uses.filter (·.key ≠ key) ++ [{ entry.toUse key with value }] := by
  have erased := h.recency.erase strictOrder_lt found
  have absent : (cache.entries.erase key).get? key = none := by
    rw [Table.get?_erase, if_pos rfl]
  rw [uses, Cache.renew, ← Table.insert_erase, uses, ← usesBy_erase h.recency found]
  refine usesBy_insert erased absent ?_
  intro place member
  exact h.rank_lt place (mem_erase.mp member).1

theorem recency_take (h : cache.Consistent) {tick : Nat} {order : Ranking Nat κ}
    (follows : cache.recency = (tick, key) :: order) : (cache.take key).2.recency = order := by
  have first : (tick, key) ∈ cache.recency := follows ▸ List.mem_cons_self
  obtain ⟨entry, found, rfl⟩ := h.recency.mem_iff.mp first
  have sorted := h.recency.sorted
  rw [Cache.take, found]
  change cache.recency.erase entry.tick = order
  rw [follows] at sorted ⊢
  exact sorted.erase_first strictOrder_lt

theorem uses_take_first (h : cache.Consistent) {tick : Nat} {order : Ranking Nat κ}
    (follows : cache.recency = (tick, key) :: order) :
    ∃ use, cache.uses = use :: (cache.take key).2.uses := by
  have keys : cache.uses.map (·.key) = key :: order.map (·.2) := by
    rw [uses, keys_usesBy h.recency, follows, List.map_cons]
  have nodup : (key :: order.map (·.2)).Nodup := by
    have distinct := h.recency.nodup_keys strictOrder_lt
    rwa [follows, List.map_cons] at distinct
  obtain ⟨use, rest, split, rfl, rest_keys⟩ := List.map_eq_cons_iff.mp keys
  refine ⟨use, ?_⟩
  rw [h.uses_take, split, List.filter_cons_of_neg (by simp), eq_comm]
  congr 1
  rw [List.filter_eq_self]
  intro other member
  refine decide_eq_true ?_
  intro same
  rw [← rest_keys] at nodup
  exact (List.nodup_cons.mp nodup).1 (same ▸ List.mem_map_of_mem member)

theorem uses_shrink (h : cache.Consistent) {order : Ranking Nat κ}
    (follows : cache.recency = order) :
    (Cache.shrink order cache).uses = cache.uses.drop (cache.uses.length - cache.capacity) := by
  induction order generalizing cache with
  | nil =>
      have empty : cache.uses = [] := by rw [uses, follows, usesBy, List.filterMap_nil]
      rw [Cache.shrink, empty, List.drop_nil]
  | cons place order ih =>
      rw [Cache.shrink, ← h.length_uses]
      split
      case isTrue fits => rw [Nat.sub_eq_zero_of_le fits, List.drop_zero]
      case isFalse full =>
        obtain ⟨use, split⟩ := h.uses_take_first follows
        rw [split, List.length_cons] at full ⊢
        rw [ih (h.take _) (h.recency_take follows), (sameSettings_take cache _).capacity,
          Nat.succ_sub (by omega), List.drop_succ_cons]

theorem uses_insert (h : cache.Consistent) (key : κ) (value : ν) (now : Nat) :
    (cache.insert key value now).2.uses =
      let uses := cache.uses.filter (·.key ≠ key) ++ [⟨key, value, now + cache.lifeSpan⟩]
      uses.drop (uses.length - cache.capacity) := by
  have absent : (cache.take key).2.entries.get? key = none := by
    rw [get?_take, if_pos rfl]
  have enlisted := h.take_enlist key value now
  have settings := sameSettings_take cache key
  have capacity : ((cache.take key).2.enlist key value now).capacity = cache.capacity :=
    settings.capacity
  calc (cache.insert key value now).2.uses
    _ = _ := enlisted.uses_shrink rfl
    _ = _ := by
        rw [(h.take key).uses_enlist absent, h.uses_take, settings.lifeSpan, capacity]

theorem uses_foldl_take (h : cache.Consistent) (places : List (α × κ)) :
    (places.foldl (fun cache place => (cache.take place.2).2) cache).uses =
      cache.uses.filter (·.key ∉ places.map (·.2)) := by
  induction places generalizing cache with
  | nil => simp
  | cons place places ih =>
      rw [List.foldl_cons, ih (h.take place.2), h.uses_take, List.filter_filter]
      apply List.filter_congr
      intro use member
      rw [← Bool.decide_and, decide_eq_decide, List.map_cons, List.mem_cons, not_or, and_comm]

theorem isDead_eq (found : cache.entries.get? key = some entry) (now : Nat) :
    cache.isDead key now = decide (entry.expiresAt ≤ now) := by
  by_cases dead : entry.expiresAt ≤ now
  · simp [isDead, contains, live?, found, Entry.isLive, Option.filter, dead]
  · simp [isDead, contains, live?, found, Entry.isLive, Option.filter, dead, Nat.lt_of_not_le dead]

theorem pairwise_isDead (h : cache.Consistent) (now : Nat) :
    cache.insertion.Pairwise fun place other =>
      cache.isDead other.2 now → cache.isDead place.2 now := by
  refine h.insertion.sorted.imp_of_mem ?_
  intro place other here there earlier dead
  obtain ⟨entry, found, rank_eq⟩ := h.insertion.mem_iff.mp here
  obtain ⟨entry', found', rank_eq'⟩ := h.insertion.mem_iff.mp there
  rw [isDead_eq found', decide_eq_true_iff, (h.fits found').expiresAt_eq, rank_eq'] at dead
  rw [isDead_eq found, decide_eq_true_iff, (h.fits found).expiresAt_eq, rank_eq]
  -- All entries live equally long, so nobody who lives stands before a dead one.
  have times := Stamp.before_iff.mp earlier
  omega

theorem takeWhile_isDead (h : cache.Consistent) (now : Nat) :
    cache.insertion.takeWhile (fun place => cache.isDead place.2 now) =
      cache.insertion.filter (fun place => cache.isDead place.2 now) :=
  takeWhile_eq_filter (h.pairwise_isDead now)

theorem isDead_of_mem_uses (h : cache.Consistent) (now : Nat) {use : Use κ ν}
    (member : use ∈ cache.uses) : cache.isDead use.key now = decide (use.expiresAt ≤ now) := by
  obtain ⟨entry, found, equal⟩ := (mem_usesBy h.recency).mp member
  rw [isDead_eq found, ← equal, Entry.toUse]

theorem mem_swept_iff (h : cache.Consistent) (found : cache.entries.get? key = some entry)
    (now : Nat) :
    key ∈ (cache.insertion.filter fun place => cache.isDead place.2 now).map (·.2) ↔
      cache.isDead key now := by
  rw [List.mem_map]
  constructor
  · rintro ⟨place, there, same⟩
    exact same ▸ (List.mem_filter.mp there).2
  · intro dead
    exact ⟨_, List.mem_filter.mpr ⟨h.insertion.mem found, dead⟩, rfl⟩

theorem uses_sweep (h : cache.Consistent) (now : Nat) :
    (cache.sweep now).2.uses = cache.uses.filter (now < ·.expiresAt) := by
  rw [Cache.sweep, h.uses_foldl_take, h.takeWhile_isDead]
  apply List.filter_congr
  intro use member
  obtain ⟨entry, found, -⟩ := (mem_usesBy h.recency).mp member
  rw [decide_eq_decide, h.mem_swept_iff found, h.isDead_of_mem_uses now member,
    decide_eq_true_iff, Nat.not_le]

theorem count_sweep_keys (h : cache.Consistent) (now : Nat) :
    (cache.sweep now).1 = cache.entries.keys.countP (cache.isDead · now) :=
  calc (cache.sweep now).1
    _ = (cache.insertion.filter fun place => cache.isDead place.2 now).length :=
        congrArg List.length (h.takeWhile_isDead now)
    _ = (cache.insertion.map (·.2)).countP (cache.isDead · now) := by
        rw [List.countP_map, List.countP_eq_length_filter]
        rfl
    _ = cache.entries.keys.countP (cache.isDead · now) :=
        (h.insertion.keys_perm Stamp.strictOrder_before h.nodup).countP_eq _

theorem count_sweep (h : cache.Consistent) (now : Nat) :
    (cache.sweep now).1 = (cache.uses.filter (·.expiresAt ≤ now)).length := by
  have keys : cache.entries.keys.Perm (cache.uses.map (·.key)) := by
    rw [uses, keys_usesBy h.recency]
    exact (h.recency.keys_perm strictOrder_lt h.nodup).symm
  rw [h.count_sweep_keys, keys.countP_eq, List.countP_map, ← List.countP_eq_length_filter]
  apply List.countP_congr
  intro use member
  rw [Function.comp_apply, h.isDead_of_mem_uses now member]

end Consistent

end Cache

end NodeProtocol
