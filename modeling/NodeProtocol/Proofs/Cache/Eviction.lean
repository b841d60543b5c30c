import Mathlib.Data.Finset.Card
import NodeProtocol.Proofs.Cache.Events

namespace NodeProtocol

namespace Cache

variable {κ ν ρ : Type}

/-- Nothing ends the key before its time, and only keys of `others` come after it. -/
structure Event.Mild (others : Finset κ) (key : κ) (expiresAt : Nat) (event : Event κ ν ρ) :
    Prop where
  spares : event.Spares key
  young : event.op = .sweep → event.time < expiresAt
  other : ∀ other, event.used? = some other → other ≠ key → other ∈ others

theorem Event.Mild.of_reading {others : Finset κ} {key : κ} {expiresAt : Nat} {event : Event κ ν ρ}
    (uses : event.op.reading?.map (·.1) = some key) : event.Mild others key expiresAt := by
  obtain ⟨reading, reads, same⟩ := Option.map_eq_some_iff.mp uses
  refine ⟨.of_reading reads, fun sweeps => ?_, fun other used differs => ?_⟩
  · rw [sweeps] at reads
    cases reads
  · rw [Event.used?_of_reading reads] at used
    split at used
    · exact absurd ((Option.some.inj used).symm.trans same) differs
    · cases used

theorem exists_of_cons_eq_append {put use : Event κ ν ρ} {later before recent : List (Event κ ν ρ)}
    (split : put :: later = before ++ use :: recent) :
    recent ⊆ later ∧ ∃ middle ⊆ later, before ++ [use] = put :: middle := by
  cases before with
  | nil =>
      cases split
      exact ⟨List.Subset.refl _, [], List.nil_subset _, rfl⟩
  | cons event before =>
      cases split
      exact ⟨by simp, before ++ [use], by simp, rfl⟩

end Cache

namespace UseList

open Cache

variable {κ ν ρ : Type} {list : UseList κ ν} {uses : List (Use κ ν)} {others : Finset κ} {key : κ}
  {expiresAt : Nat}

def Held (others : Finset κ) (key : κ) (expiresAt : Nat) (uses : List (Use κ ν)) : Prop :=
  ∃ before use behind, uses = before ++ use :: behind ∧ use.key = key ∧
    use.expiresAt = expiresAt ∧ ∀ other ∈ behind, other.key ∈ others

namespace Held

theorem last (before : List (Use κ ν)) {use : Use κ ν} (same : use.key = key)
    (expires : use.expiresAt = expiresAt) : Held others key expiresAt (before ++ [use]) :=
  ⟨before, use, [], rfl, same, expires, nofun⟩

theorem concat (h : Held others key expiresAt uses) {new : Use κ ν} (member : new.key ∈ others) :
    Held others key expiresAt (uses ++ [new]) := by
  obtain ⟨before, use, behind, rfl, same, expires, allowed⟩ := h
  refine ⟨before, use, behind ++ [new], by simp, same, expires, ?_⟩
  simpa [or_imp, forall_and, member] using allowed

theorem filter (h : Held others key expiresAt uses) {keep : Use κ ν → Bool}
    (kept : ∀ use, use.key = key → use.expiresAt = expiresAt → keep use) :
    Held others key expiresAt (uses.filter keep) := by
  obtain ⟨before, use, behind, rfl, same, expires, allowed⟩ := h
  refine ⟨before.filter keep, use, behind.filter keep, ?_, same, expires, ?_⟩
  · rw [List.filter_append, List.filter_cons_of_pos (kept use same expires)]
  · exact fun other member => allowed other (List.mem_of_mem_filter member)

theorem expiresAt_eq (h : Held others key expiresAt list.uses) (sound : list.Sound)
    {use : Use κ ν} (member : use ∈ list.uses) (same : use.key = key) :
    use.expiresAt = expiresAt := by
  obtain ⟨before, held, behind, split, there, expires, -⟩ := h
  have found : held ∈ list.uses := by simp [split]
  rw [List.inj_on_of_nodup_map sound.nodup member found (same.trans there.symm), expires]

variable [DecidableEq κ]

theorem without (h : Held others key expiresAt list.uses) {other : κ} (differs : other ≠ key) :
    Held others key expiresAt (list.without other) :=
  h.filter fun _ same _ => decide_eq_true (same ▸ differs.symm)

theorem drop (h : Held others key expiresAt uses) (nodup : (uses.map (·.key)).Nodup)
    {capacity : Nat} (room : others.card < capacity) :
    Held others key expiresAt (uses.drop (uses.length - capacity)) := by
  obtain ⟨before, use, behind, rfl, same, expires, allowed⟩ := h
  have distinct : (behind.map (·.key)).Nodup := by
    rw [List.map_append, List.map_cons] at nodup
    exact (List.nodup_cons.mp nodup.of_append_right).2
  have few : behind.length ≤ others.card := by
    rw [← List.length_map, ← List.toFinset_card_of_nodup distinct]
    apply Finset.card_le_card
    intro other member
    obtain ⟨later, there, rfl⟩ := List.mem_map.mp (List.mem_toFinset.mp member)
    exact allowed later there
  -- Whoever goes first stands in front of the key, as all behind it have room.
  have front : (before ++ use :: behind).length - capacity ≤ before.length := by
    rw [List.length_append, List.length_cons]
    omega
  exact ⟨before.drop _, use, behind, List.drop_append_of_le_length front, same, expires, allowed⟩

theorem perform (h : Held others key expiresAt list.uses) (sound : list.Sound)
    (room : others.card < list.capacity) {now : Nat} {op : Op κ ν ρ}
    (mild : Event.Mild others key expiresAt ⟨now, op, (list.perform now op).1⟩) :
    Held others key expiresAt (list.perform now op).2.uses := by
  cases reads : op.reading? with
  | some reading =>
      rcases read_cases reads now with ⟨-, -, after⟩ | ⟨use, living, found, after⟩
      · exact after ▸ h
      · obtain ⟨member, same, -⟩ := sound.live?_eq_some_iff.mp living
        rw [after]
        by_cases here : reading.1 = key
        · have expires := h.expiresAt_eq sound member (same.trans here)
          exact .last _ (same.trans here) expires
        · refine (h.without here).concat (mild.other use.key ?_ (same ▸ here))
          rw [Event.used?_of_reading reads, if_pos found, same]
  | none =>
      cases op with
      | get | withValue => cases reads
      | put other value =>
          rw [UseList.perform, put] at mild ⊢
          split
          case isTrue => exact h
          case isFalse isOpen =>
            have differs : other ≠ key := by
              rintro rfl
              exact mild.spares.put value rfl
            rw [if_neg isOpen] at mild
            let new : Use κ ν := ⟨other, value, now + list.lifeSpan⟩
            have allowed : new.key ∈ others := mild.other other rfl differs
            have kept := (h.without differs).concat allowed
            exact kept.drop (sound.nodup_without_append new) room
      | remove other =>
          have differs : other ≠ key := by
            rintro rfl
            exact mild.spares.remove rfl
          exact h.without differs
      | contains | size => exact h
      | sweep => exact h.filter fun use _ expires => by simpa [expires] using mild.young rfl
      | clear => exact absurd rfl mild.spares.clear

theorem run (h : Held others key expiresAt list.uses) (sound : list.Sound)
    (room : others.card < list.capacity) (ops : List (Nat × Op κ ν ρ))
    (mild : ∀ event ∈ log UseList.perform ops list, event.Mild others key expiresAt) :
    Held others key expiresAt (Cache.run UseList.perform ops list).2.uses := by
  have kept := preserved_of_log
    (P := fun list : UseList κ ν =>
      list.Sound ∧ others.card < list.capacity ∧ Held others key expiresAt list.uses)
    ?_ ⟨sound, room, h⟩ ops mild
  · exact kept.2.2
  · intro list now op ⟨sound, room, h⟩ mild
    exact ⟨sound.perform now op, (settings_perform list now op).1 ▸ room,
      h.perform sound room mild⟩

theorem contains_eq (h : Held others key expiresAt list.uses) (sound : list.Sound) (now : Nat) :
    list.contains key now = decide (now < expiresAt) := by
  have ⟨before, use, behind, split, same, expires, _⟩ := h
  have member : use ∈ list.uses := by simp [split]
  by_cases young : now < expiresAt
  · have living := sound.live?_eq_some_iff.mpr ⟨member, same, expires ▸ young⟩
    rw [contains, living, decide_eq_true young, Option.isSome_some]
  · have missing : list.live? key now = none := by
      rw [sound.live?_eq_none_iff]
      intro use member same
      exact h.expiresAt_eq sound member same ▸ Nat.le_of_not_lt young
    rw [contains, missing, decide_eq_false young, Option.isSome_none]

end Held

def DueAt (list : UseList κ ν) (key : κ) (expiresAt : Nat) : Prop :=
  ∀ use ∈ list.uses, use.key = key → use.expiresAt = expiresAt

namespace DueAt

variable [DecidableEq κ]

theorem of_put (sound : list.Sound) (start : Nat) (value : ν) :
    (list.perform start (.put key value : Op κ ν ρ)).2.DueAt key (start + list.lifeSpan) := by
  intro use member same
  cases sound.origin member with
  | put _ _ _ expires => exact expires
  | kept _ _ _ _ spares => exact absurd (same ▸ rfl) (spares.put value)

theorem perform (h : list.DueAt key expiresAt) (sound : list.Sound) {now : Nat} {op : Op κ ν ρ}
    (spares : Event.Spares key ⟨now, op, (list.perform now op).1⟩) :
    (list.perform now op).2.DueAt key expiresAt := by
  intro use member same
  cases sound.origin member with
  | put _ _ event_eq => exact absurd (same ▸ congrArg Event.op event_eq) (spares.put use.value)
  | kept old there key_eq expires => exact expires ▸ h old there (key_eq.trans same)

theorem run (h : list.DueAt key expiresAt) (sound : list.Sound) (ops : List (Nat × Op κ ν ρ))
    (spares : ∀ event ∈ log UseList.perform ops list, event.Spares key) :
    (Cache.run UseList.perform ops list).2.DueAt key expiresAt := by
  have kept := preserved_of_log (P := fun list : UseList κ ν => list.Sound ∧ list.DueAt key expiresAt) ?_
    ⟨sound, h⟩ ops spares
  · exact kept.2
  · intro list now op ⟨sound, h⟩ spares
    exact ⟨sound.perform now op, h.perform sound spares⟩

theorem of_log (sound : list.Sound) {ops : List (Nat × Op κ ν ρ)}
    {earlier later : List (Event κ ν ρ)} {start : Nat} {value : ν} {answer : Answer ν ρ}
    (split : log UseList.perform ops list = earlier ++ ⟨start, .put key value, answer⟩ :: later)
    (spares : ∀ event ∈ later, event.Spares key) :
    (Cache.run UseList.perform ops list).2.DueAt key (start + list.lifeSpan) := by
  obtain ⟨first, now, op, rest, rfl, -, same, rfl⟩ := exists_of_log split
  cases same
  rw [run_append, ← (settings_run first list).2]
  exact (of_put (sound.run first) start value).run ((sound.run first).perform _ _) rest spares

end DueAt

variable [DecidableEq κ]

theorem held_of_used (room : 0 < list.capacity) {now : Nat} {op : Op κ ν ρ}
    (used : Event.used? ⟨now, op, (list.perform now op).1⟩ = some key)
    (due : (list.perform now op).2.DueAt key expiresAt) :
    Held others key expiresAt (list.perform now op).2.uses := by
  suffices last : ∃ before use, (list.perform now op).2.uses = before ++ [use] ∧ use.key = key by
    obtain ⟨before, use, uses, same⟩ := last
    rw [uses]
    exact .last before same (due use (by simp [uses]) same)
  cases reads : op.reading? with
  | some reading =>
      rw [Event.used?_of_reading reads] at used
      rcases read_cases reads now with ⟨-, missed, -⟩ | ⟨use, living, found, after⟩
      · rw [missed] at used
        cases used
      · rw [found] at used
        cases used
        exact ⟨_, _, congrArg _ after, (key_of_live? living : use.key = _)⟩
  | none =>
      cases op with
      | get | withValue => cases reads
      | put other value =>
          rw [UseList.perform, put] at used ⊢
          split at used
          case isTrue => cases used
          case isFalse isOpen =>
            cases used
            rw [if_neg isOpen]
            refine ⟨_, _, List.drop_append_of_le_length ?_, rfl⟩
            rw [List.length_append, List.length_singleton]
            omega
      | remove | contains | size | sweep | clear => simp [Event.used?, Op.reading?] at used

theorem held_of_log (sound : list.Sound) {ops : List (Nat × Op κ ν ρ)}
    {earlier later before recent : List (Event κ ν ρ)} {start : Nat} {value : ν}
    {answer : Answer ν ρ} {use : Event κ ν ρ}
    (split : log UseList.perform ops list = earlier ++ ⟨start, .put key value, answer⟩ :: later)
    (spares : ∀ event ∈ later, event.Spares key)
    (last : ⟨start, .put key value, answer⟩ :: later = before ++ use :: recent)
    (used : use.used? = some key) (room : others.card < list.capacity)
    (mild : ∀ event ∈ recent, event.Mild others key (start + list.lifeSpan)) :
    Held others key (start + list.lifeSpan) (run UseList.perform ops list).2.uses := by
  obtain ⟨-, middle, within, begins⟩ := exists_of_cons_eq_append last
  have whole : log UseList.perform ops list = (earlier ++ before) ++ use :: recent := by
    rw [split, last, List.append_assoc]
  obtain ⟨first, time, op, rest, rfl, sofar, rfl, rfl⟩ := exists_of_log whole
  have sound' := sound.run first
  have settings := settings_run first list
  have upto : log UseList.perform (first ++ [(time, op)]) list =
      earlier ++ ⟨start, .put key value, answer⟩ :: middle := by
    rw [log_append, sofar, ← begins, List.append_assoc]
    rfl
  have due := DueAt.of_log sound upto fun event member => spares event (within member)
  rw [run_append] at due ⊢
  have held : Held others key (start + list.lifeSpan) _ := held_of_used (by omega) used due
  refine held.run (sound'.perform time op) ?_ rest mild
  rwa [(settings_perform _ time op).1, settings.1]

end UseList

namespace Cache

variable {κ ν ρ : Type} [DecidableEq κ]

def usedKeys (events : List (Event κ ν ρ)) : Finset κ :=
  (events.filterMap Event.used?).toFinset

theorem isSome_get (cache : Cache κ ν) (key : κ) (now : Nat) :
    (cache.get key now).1.isSome = cache.contains key now := by
  rw [get, withValue_fst, Option.isSome_map, contains]

/-- Here `use` is the put or a later look-up that found the key, and `recent` is what came after.
The times of the past need not be in order. -/
theorem get_of_recent (config : Config) (ops : List (Nat × Op κ ν ρ)) {now start : Nat}
    (past : ∀ step ∈ ops, step.1 ≤ now) {earlier later before recent : List (Event κ ν ρ)}
    {key : κ} {value : ν} {previous : Option ν} {use : Event κ ν ρ}
    (split : log perform ops (ofConfig config) =
      earlier ++ ⟨start, .put key value, .put (.ok previous)⟩ :: later)
    (spares : ∀ event ∈ later, event.Spares key) (young : now < start + config.lifeSpan)
    (last : ⟨start, .put key value, .put (.ok previous)⟩ :: later = before ++ use :: recent)
    (used : use.used? = some key) (few : ((usedKeys recent).erase key).card < config.capacity) :
    let cache := (run perform ops (ofConfig config)).2
    cache.contains key now ∧ (cache.get key now).1.isSome := by
  intro cache
  suffices present : cache.contains key now from ⟨present, (isSome_get cache key now).trans present⟩
  have consistent : (ofConfig config : Cache κ ν).Consistent := consistent_ofConfig config
  have within := (exists_of_cons_eq_append last).1
  have mild : ∀ event ∈ recent,
      event.Mild ((usedKeys recent).erase key) key (start + config.lifeSpan) := by
    intro event member
    have happened : event ∈ log perform ops (ofConfig config) := by
      rw [split]
      simp [within member]
    have time_le := past _ (mem_of_mem_log happened)
    refine ⟨spares event (within member), fun _ => Nat.lt_of_le_of_lt time_le young, ?_⟩
    intro other uses differs
    rw [Finset.mem_erase, usedKeys, List.mem_toFinset, List.mem_filterMap]
    exact ⟨differs, event, member, uses⟩
  rw [← consistent.log_useList] at split
  have sound : (.ofConfig config : UseList κ ν).Sound := UseList.sound_ofConfig config
  have held := UseList.held_of_log sound split spares last used few mild
  rw [consistent.contains_run]
  exact (held.contains_eq (sound.run ops) now).trans (decide_eq_true young)

theorem get_of_recent_two_places :
    let ops : List (Nat × Op Nat Nat Unit) :=
      [(0, .put 1 10), (10, .put 2 20), (20, .get 1), (30, .put 3 30), (40, .sweep), (45, .get 3)]
    let cache := (run perform ops (ofConfig { capacity := 2, lifeSpan := 100 })).2
    cache.contains 2 50 = false ∧ cache.contains 1 50 ∧ (cache.get 1 50).1.isSome := by
  intro ops cache
  let put : Event Nat Nat Unit := ⟨0, .put 1 10, .put (.ok none)⟩
  let other : Event Nat Nat Unit := ⟨10, .put 2 20, .put (.ok none)⟩
  let use : Event Nat Nat Unit := ⟨20, .get 1, .value (some 10)⟩
  let recent : List (Event Nat Nat Unit) :=
    [⟨30, .put 3 30, .put (.ok none)⟩, ⟨40, .sweep, .count 0⟩, ⟨45, .get 3, .value (some 30)⟩]
  have past : ∀ step ∈ ops, step.1 ≤ 50 := by simp [ops]
  have split : log perform ops (ofConfig { capacity := 2, lifeSpan := 100 }) =
    [] ++ put :: other :: use :: recent := rfl
  have spares : ∀ event ∈ other :: use :: recent, event.Spares 1 := by
    simp only [recent, List.forall_mem_cons]
    exact ⟨⟨nofun, nofun, nofun⟩, ⟨nofun, nofun, nofun⟩, ⟨nofun, nofun, nofun⟩,
      ⟨nofun, nofun, nofun⟩, ⟨nofun, nofun, nofun⟩, nofun⟩
  have last : put :: other :: use :: recent = [put, other] ++ use :: recent := rfl
  exact ⟨rfl, get_of_recent _ ops past split spares (by decide) last rfl (by decide)⟩

end Cache

end NodeProtocol
