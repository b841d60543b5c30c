import NodeProtocol.Proofs.Cache.UseList

namespace NodeProtocol

namespace Cache

inductive Op (κ ν ρ : Type)
  | put (key : κ) (value : ν)
  | get (key : κ)
  | withValue (key : κ) (run : ν → ρ × ν)
  | remove (key : κ)
  | contains (key : κ)
  | size
  | sweep
  | clear

inductive Answer (ν ρ : Type)
  | put (result : Except Error (Option ν))
  | value (result : Option ν)
  | ran (result : Option ρ)
  | contains (result : Bool)
  | count (n : Nat)
  | done

variable {κ ν ρ σ : Type}

def run (perform : Nat → Op κ ν ρ → σ → Answer ν ρ × σ) :
    List (Nat × Op κ ν ρ) → σ → List (Answer ν ρ) × σ
  | [], state => ([], state)
  | (now, op) :: ops, state =>
    let (answer, state) := perform now op state
    let (answers, state) := run perform ops state
    (answer :: answers, state)

variable [DecidableEq κ]

def perform (now : Nat) (op : Op κ ν ρ) (cache : Cache κ ν) : Answer ν ρ × Cache κ ν :=
  match op with
  | .put key value => Prod.map .put id (cache.put key value now)
  | .get key => Prod.map .value id (cache.get key now)
  | .withValue key run => Prod.map .ran id (cache.withValue key run now)
  | .remove key => Prod.map .value id (cache.remove key now)
  | .contains key => (.contains (cache.contains key now), cache)
  | .size => (.count cache.size, cache)
  | .sweep => Prod.map .count id (cache.sweep now)
  | .clear => (.done, cache.clear)

end Cache

namespace UseList

variable {κ ν ρ : Type} [DecidableEq κ]

def perform (now : Nat) (op : Cache.Op κ ν ρ) (list : UseList κ ν) :
    Cache.Answer ν ρ × UseList κ ν :=
  match op with
  | .put key value => Prod.map .put id (list.put key value now)
  | .get key => Prod.map .value id (list.get key now)
  | .withValue key run => Prod.map .ran id (list.withValue key run now)
  | .remove key => Prod.map .value id (list.remove key now)
  | .contains key => (.contains (list.contains key now), list)
  | .size => (.count list.size, list)
  | .sweep => Prod.map .count id (list.sweep now)
  | .clear => (.done, list.clear)

end UseList

namespace Cache

variable {κ ν ρ : Type} [DecidableEq κ] {cache : Cache κ ν} {key : κ}

theorem SameSettings.useList_eq {after before : Cache κ ν} (same : SameSettings after before)
    {uses : List (Use κ ν)} (h : after.uses = uses) :
    after.useList = { before.useList with uses } := by
  rw [useList, h, same.capacity, same.lifeSpan, same.closed, useList]

namespace Consistent

theorem find?_useList (h : cache.Consistent) (key : κ) :
    cache.useList.find? key = (cache.entries.get? key).map (·.toUse key) :=
  h.find?_uses key

theorem live?_useList (h : cache.Consistent) (key : κ) (now : Nat) :
    cache.useList.live? key now = (cache.live? key now).map (·.toUse key) := by
  rw [UseList.live?, h.find?_useList, live?]
  cases cache.entries.get? key with
  | none => rfl
  | some entry =>
      by_cases living : now < entry.expiresAt
      · simp [Option.filter, Entry.toUse, Entry.isLive, living]
      · simp [Option.filter, Entry.toUse, Entry.isLive, living]

theorem put_useList (h : cache.Consistent) (key : κ) (value : ν) (now : Nat) :
    cache.useList.put key value now = Prod.map id useList (cache.put key value now) := by
  rw [UseList.put, Cache.put]
  change (if cache.closed then _ else _) = _
  split
  · rfl
  · have previous : (cache.insert key value now).1 = (cache.useList.find? key).map (·.value) := by
      change (cache.take key).1 = _
      rw [h.find?_useList, Cache.take]
      split
      case h_1 absent => rw [absent]; rfl
      case h_2 entry found => rw [found]; rfl
    have after := (sameSettings_insert cache key value now).useList_eq (h.uses_insert key value now)
    rw [← previous]
    exact congrArg (Prod.mk _) after.symm

theorem withValue_useList (h : cache.Consistent) (key : κ) (run : ν → ρ × ν) (now : Nat) :
    cache.useList.withValue key run now = Prod.map id useList (cache.withValue key run now) := by
  rw [UseList.withValue, h.live?_useList, Cache.withValue]
  cases living : cache.live? key now with
  | none => rfl
  | some entry =>
      have found : cache.entries.get? key = some entry := Option.eq_some_of_filter_eq_some living
      have uses := h.uses_renew found (run entry.value).2
      have settings : SameSettings (cache.renew key { entry with value := (run entry.value).2 })
        cache := ⟨rfl, rfl, rfl⟩
      rw [Prod.map, settings.useList_eq uses]
      rfl

theorem remove_useList (h : cache.Consistent) (key : κ) (now : Nat) :
    cache.useList.remove key now = Prod.map id useList (cache.remove key now) := by
  rw [UseList.remove, Cache.remove, Prod.map, h.live?_useList,
    (sameSettings_take cache key).useList_eq (h.uses_take key), Option.map_map]
  rfl

theorem contains_useList (h : cache.Consistent) (key : κ) (now : Nat) :
    cache.useList.contains key now = cache.contains key now := by
  rw [UseList.contains, h.live?_useList, Option.isSome_map, Cache.contains]

theorem sweep_useList (h : cache.Consistent) (now : Nat) :
    cache.useList.sweep now = Prod.map id useList (cache.sweep now) := by
  rw [Prod.map, h.count_sweep,
    (sameSettings_sweep cache now).useList_eq (h.uses_sweep now)]
  rfl

theorem perform_useList (h : cache.Consistent) (now : Nat) (op : Op κ ν ρ) :
    cache.useList.perform now op = Prod.map id useList (cache.perform now op) := by
  cases op with
  | put key value => rw [UseList.perform, h.put_useList]; rfl
  | get key => rw [UseList.perform, UseList.get, h.withValue_useList]; rfl
  | withValue key run => rw [UseList.perform, h.withValue_useList]; rfl
  | remove key => rw [UseList.perform, h.remove_useList]; rfl
  | contains key => rw [UseList.perform, h.contains_useList]; rfl
  | size => rw [UseList.perform, UseList.size, useList, h.length_uses]; rfl
  | sweep => rw [UseList.perform, h.sweep_useList]; rfl
  | clear => rfl

theorem perform (h : cache.Consistent) (now : Nat) (op : Op κ ν ρ) :
    (cache.perform now op).2.Consistent := by
  cases op with
  | put key value => exact h.put key value now
  | get key => exact h.withValue key (fun value => (value, value)) now
  | withValue key run => exact h.withValue key run now
  | remove key => exact h.remove key now
  | sweep => exact h.sweep now
  | clear => exact Consistent.clear
  | contains | size => exact h

theorem run_useList (h : cache.Consistent) (ops : List (Nat × Op κ ν ρ)) :
    run UseList.perform ops cache.useList = Prod.map id useList (run Cache.perform ops cache) := by
  induction ops generalizing cache with
  | nil => rfl
  | cons op ops ih =>
      obtain ⟨now, op⟩ := op
      have step := h.perform_useList now op
      have rest := ih (h.perform now op)
      simp only [run, step, Prod.map, id] at rest ⊢
      rw [rest]

end Consistent

theorem answers_eq_useList (config : Config) (ops : List (Nat × Op κ ν ρ)) :
    (run perform ops (ofConfig config)).1 = (run UseList.perform ops (.ofConfig config)).1 := by
  have runs := (consistent_ofConfig config).run_useList ops
  exact (congrArg Prod.fst runs).symm

end Cache

end NodeProtocol
