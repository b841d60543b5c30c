import NodeProtocol.Proofs.Cache.Eviction

/-!
# What a hit tells

Whoever finds a key finds what was put last, as it was edited since, and not too late. The history
of a cache is told beside its list of uses: each use stems from a put that it outlives by no more
than the life span (`Traced`), whatever happened in between.

* `Written`: the last put of a key in a history, and what has become of its value.
* `fresh_of_hit`: all that a hit tells, and that using a key does not prolong its life.
-/

namespace NodeProtocol

namespace Cache

variable {κ ν ρ : Type} [DecidableEq κ]

/-- The key was put last at `start`. Until it dies nobody looks for it in vain, and `value` is what
the edits have made of the value that was put. -/
def Written (lifeSpan : Nat) (past : List (Event κ ν ρ)) (key : κ) (value : ν) (start : Nat) :
    Prop :=
  ∃ earlier initial previous later,
    past = earlier ++ ⟨start, .put key initial, .put (.ok previous)⟩ :: later ∧
    (∀ event ∈ later, event.Spares key) ∧
    (∀ event ∈ later, event.time < start + lifeSpan → ¬ event.Misses key) ∧
    value = later.foldl (fun value event => event.edit key value) initial

def Fresh (lifeSpan : Nat) (past : List (Event κ ν ρ)) (key : κ) (now : Nat) (value : ν) : Prop :=
  ∃ start ≤ now, now < start + lifeSpan ∧ Written lifeSpan past key value start

structure FreshHits (lifeSpan : Nat) (past : List (Event κ ν ρ)) (cache : Cache κ ν) (key : κ)
    (now : Nat) : Prop where
  get : ∀ value, (cache.get key now).1 = some value → Fresh lifeSpan past key now value
  withValue : ∀ {α : Type} (body : ν → α × ν) (answer : α),
    (cache.withValue key body now).1 = some answer →
      ∃ value, Fresh lifeSpan past key now value ∧ (body value).1 = answer
  contains : cache.contains key now → ∃ value, Fresh lifeSpan past key now value
  remove : ∀ value, (cache.remove key now).1 = some value → Fresh lifeSpan past key now value

theorem freshHits_of_live? {lifeSpan : Nat} {past : List (Event κ ν ρ)} {cache : Cache κ ν} {key : κ}
    {now : Nat}
    (fresh : ∀ {entry}, cache.live? key now = some entry →
      Fresh lifeSpan past key now entry.value) : FreshHits lifeSpan past cache key now where
  get := by
    intro value hit
    rw [Cache.get, withValue_fst] at hit
    obtain ⟨entry, living, rfl⟩ := Option.map_eq_some_iff.mp hit
    exact fresh living
  withValue := by
    intro α body answer hit
    rw [withValue_fst] at hit
    obtain ⟨entry, living, rfl⟩ := Option.map_eq_some_iff.mp hit
    exact ⟨entry.value, fresh living, rfl⟩
  contains := by
    intro hit
    obtain ⟨entry, living⟩ := Option.isSome_iff_exists.mp hit
    exact ⟨entry.value, fresh living⟩
  remove := by
    intro value hit
    obtain ⟨entry, living, rfl⟩ := Option.map_eq_some_iff.mp hit
    exact fresh living

namespace Written

variable {lifeSpan start : Nat} {past : List (Event κ ν ρ)} {key : κ} {value : ν}

theorem of_put (lifeSpan : Nat) (past : List (Event κ ν ρ)) (key : κ) (value : ν) (start : Nat)
    (previous : Option ν) :
    Written lifeSpan (past ++ [⟨start, .put key value, .put (.ok previous)⟩]) key value start :=
  ⟨past, value, previous, [], rfl, nofun, nofun, rfl⟩

theorem concat (h : Written lifeSpan past key value start) {event : Event κ ν ρ}
    (spares : event.Spares key) (found : event.time < start + lifeSpan → ¬ event.Misses key) :
    Written lifeSpan (past ++ [event]) key (event.edit key value) start := by
  obtain ⟨earlier, initial, previous, later, rfl, spared, hit, rfl⟩ := h
  refine ⟨earlier, initial, previous, later ++ [event], by simp, ?_, ?_, by simp⟩
  · exact List.forall_mem_append.mpr ⟨spared, List.forall_mem_singleton.mpr spares⟩
  · exact List.forall_mem_append.mpr ⟨hit, List.forall_mem_singleton.mpr found⟩

end Written

end Cache

namespace UseList

open Cache

variable {κ ν ρ : Type} [DecidableEq κ] {list : UseList κ ν} {past : List (Event κ ν ρ)}
  {lifeSpan : Nat}

structure Traced (lifeSpan : Nat) (past : List (Event κ ν ρ)) (list : UseList κ ν) : Prop where
  sound : list.Sound
  lifeSpan_eq : list.lifeSpan = lifeSpan
  written : ∀ use ∈ list.uses, ∃ start, use.expiresAt = start + lifeSpan ∧
    Written lifeSpan past use.key use.value start

namespace Traced

theorem ofConfig (config : Config) :
    Traced config.lifeSpan ([] : List (Event κ ν ρ)) (.ofConfig config) :=
  ⟨sound_ofConfig config, rfl, nofun⟩

theorem perform (h : Traced lifeSpan past list) (now : Nat) (op : Op κ ν ρ) :
    Traced lifeSpan (past ++ [⟨now, op, (list.perform now op).1⟩]) (list.perform now op).2 where
  sound := h.sound.perform now op
  lifeSpan_eq := (settings_perform list now op).2.1.trans h.lifeSpan_eq
  written := by
    intro use member
    cases h.sound.origin member with
    | put previous _ event_eq expires =>
        rw [event_eq]
        exact ⟨now, h.lifeSpan_eq ▸ expires, .of_put ..⟩
    | kept old there same expires spares found value_eq =>
        obtain ⟨start, due, written⟩ := h.written old there
        rw [same] at written
        rw [← expires, due] at found
        rw [value_eq]
        exact ⟨start, expires ▸ due, written.concat spares found⟩

theorem run (h : Traced lifeSpan past list) (ops : List (Nat × Op κ ν ρ)) :
    Traced lifeSpan (past ++ log UseList.perform ops list)
      (Cache.run UseList.perform ops list).2 := by
  induction ops generalizing past list with
  | nil => simpa [log, Cache.run] using h
  | cons step ops ih =>
      have rest := ih (h.perform step.1 step.2)
      rwa [List.append_assoc] at rest

end Traced

end UseList

namespace Cache

variable {κ ν ρ : Type} [DecidableEq κ] {config : Config} {ops : List (Nat × Op κ ν ρ)} {now : Nat}
  {key : κ}

theorem fresh_of_live? (past : ∀ step ∈ ops, step.1 ≤ now) {entry : Entry ν}
    (living : (run perform ops (ofConfig config)).2.live? key now = some entry) :
    Fresh config.lifeSpan (log perform ops (ofConfig config)) key now entry.value := by
  have consistent : (ofConfig config : Cache κ ν).Consistent := consistent_ofConfig config
  have traced : UseList.Traced config.lifeSpan (log perform ops (ofConfig config))
      (run perform ops (ofConfig config)).2.useList := by
    rw [← consistent.log_useList, consistent.useList_run]
    exact (UseList.Traced.ofConfig config).run ops
  have found := (consistent.run ops).live?_useList key now
  rw [living] at found
  obtain ⟨member, -, young⟩ := traced.sound.live?_eq_some_iff.mp found
  obtain ⟨start, due, written⟩ := traced.written _ member
  refine ⟨start, ?_, due ▸ young, written⟩
  obtain ⟨earlier, initial, previous, later, split, -⟩ := written
  exact past _ (mem_of_mem_log (split ▸ List.mem_append_right _ List.mem_cons_self))

theorem contains_of_uses (room : 0 < config.capacity) {earlier later : List (Event κ ν ρ)}
    {start : Nat} {value : ν} {previous : Option ν}
    (split : log perform ops (ofConfig config) =
      earlier ++ ⟨start, .put key value, .put (.ok previous)⟩ :: later)
    (uses : ∀ event ∈ later, event.op.reading?.map (·.1) = some key) (now : Nat) :
    (run perform ops (ofConfig config)).2.contains key now =
      decide (now < start + config.lifeSpan) := by
  have consistent : (ofConfig config : Cache κ ν).Consistent := consistent_ofConfig config
  have sound : (.ofConfig config : UseList κ ν).Sound := UseList.sound_ofConfig config
  -- Looking the key up does not put it again, so nothing moves its time of death.
  have mild : ∀ event ∈ later, event.Mild ∅ key (start + config.lifeSpan) :=
    fun event member => .of_reading (uses event member)
  let put : Event κ ν ρ := ⟨start, .put key value, .put (.ok previous)⟩
  have last : put :: later = [] ++ put :: later := rfl
  have few : (∅ : Finset κ).card < (.ofConfig config : UseList κ ν).capacity := by
    rwa [Finset.card_empty]
  rw [← consistent.log_useList] at split
  have held := UseList.held_of_log sound split (fun event member => (mild event member).spares)
    last rfl few mild
  rw [consistent.contains_run]
  exact held.contains_eq (sound.run ops) now

theorem fresh_of_hit (config : Config) (ops : List (Nat × Op κ ν ρ)) (key : κ) :
    let past := log perform ops (ofConfig config)
    let cache := (run perform ops (ofConfig config)).2
    (∀ now, (∀ step ∈ ops, step.1 ≤ now) → FreshHits config.lifeSpan past cache key now) ∧
    (0 < config.capacity → ∀ earlier start value previous later,
      past = earlier ++ ⟨start, .put key value, .put (.ok previous)⟩ :: later →
      (∀ event ∈ later, event.op.reading?.map (·.1) = some key) →
      ∀ now, cache.contains key now = decide (now < start + config.lifeSpan)) := by
  intro past cache
  constructor
  · exact fun now times => freshHits_of_live? fun living => fresh_of_live? times living
  · exact fun room _ _ _ _ _ split uses now => contains_of_uses room split uses now

theorem fresh_of_hit_put_twice :
    let ops : List (Nat × Op Nat Nat Unit) :=
      [(0, .put 1 10), (1, .withValue 1 fun value => ((), value + 1)), (2, .put 1 20),
        (4, .withValue 1 fun value => ((), value + 1)), (5, .get 1)]
    let cache := (run perform ops (ofConfig { capacity := 1, lifeSpan := 5 })).2
    Fresh 5 (log perform ops (ofConfig { capacity := 1, lifeSpan := 5 })) 1 6 21 ∧
      cache.contains 1 6 ∧ cache.contains 1 7 = false := by
  intro ops cache
  have ⟨hits, lives⟩ := fresh_of_hit { capacity := 1, lifeSpan := 5 } ops 1
  have times : ∀ step ∈ ops, step.1 ≤ 6 := by simp [ops]
  let earlier : List (Event Nat Nat Unit) :=
    [⟨0, .put 1 10, .put (.ok none)⟩,
      ⟨1, .withValue 1 fun value => ((), value + 1), .ran (some ())⟩]
  let later : List (Event Nat Nat Unit) :=
    [⟨4, .withValue 1 fun value => ((), value + 1), .ran (some ())⟩, ⟨5, .get 1, .value (some 21)⟩]
  have uses : ∀ event ∈ later, event.op.reading?.map (·.1) = some 1 := by
    simp [later, Op.reading?]
  have contains := lives Nat.one_pos earlier 2 20 (some 11) later rfl uses
  exact ⟨(hits 6 times).get 21 rfl, contains 6, contains 7⟩

end Cache

end NodeProtocol
