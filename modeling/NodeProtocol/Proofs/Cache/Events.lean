import NodeProtocol.Proofs.Cache.Refinement

namespace NodeProtocol

namespace Cache

variable {κ ν ρ σ : Type}

structure Event (κ ν ρ : Type) where
  time : Nat
  op : Op κ ν ρ
  answer : Answer ν ρ

def log (perform : Nat → Op κ ν ρ → σ → Answer ν ρ × σ) :
    List (Nat × Op κ ν ρ) → σ → List (Event κ ν ρ)
  | [], _ => []
  | (now, op) :: ops, state =>
    ⟨now, op, (perform now op state).1⟩ :: log perform ops (perform now op state).2

def Op.reading? : Op κ ν ρ → Option (κ × (ν → ν))
  | .get key => some (key, id)
  | .withValue key run => some (key, fun value => (run value).2)
  | _ => none

def Answer.found : Answer ν ρ → Bool
  | .value (some _) | .ran (some _) => true
  | _ => false

namespace Event

structure Spares (key : κ) (event : Event κ ν ρ) : Prop where
  put : ∀ value, event.op ≠ .put key value
  remove : event.op ≠ .remove key
  clear : event.op ≠ .clear

def Misses (key : κ) (event : Event κ ν ρ) : Prop :=
  event.op.reading?.map (·.1) = some key ∧ event.answer.found = false

def edit [DecidableEq κ] (key : κ) (event : Event κ ν ρ) (value : ν) : ν :=
  match event.op.reading? with
  | some (other, change) => if other = key ∧ event.answer.found then change value else value
  | none => value

def used? (event : Event κ ν ρ) : Option κ :=
  match event.op, event.answer with
  | .put key _, .put (.ok _) => some key
  | op, answer => if answer.found then op.reading?.map (·.1) else none

section Reading

variable {event : Event κ ν ρ} {reading : κ × (ν → ν)} (reads : event.op.reading? = some reading)

include reads

theorem Spares.of_reading {key : κ} : event.Spares key := by
  obtain ⟨time, op, answer⟩ := event
  cases op with
  | get | withValue => exact ⟨nofun, nofun, nofun⟩
  | put | remove | contains | size | sweep | clear => cases reads

theorem used?_of_reading :
    event.used? = if event.answer.found then some reading.1 else none := by
  obtain ⟨time, op, answer⟩ := event
  cases op with
  | get | withValue =>
      cases reads
      rfl
  | put | remove | contains | size | sweep | clear => cases reads

end Reading

end Event

section Log

variable {perform : Nat → Op κ ν ρ → σ → Answer ν ρ × σ} {ops : List (Nat × Op κ ν ρ)} {state : σ}

theorem log_append (first rest : List (Nat × Op κ ν ρ)) (state : σ) :
    log perform (first ++ rest) state =
      log perform first state ++ log perform rest (run perform first state).2 := by
  induction first generalizing state with
  | nil => rfl
  | cons step first ih => exact congrArg _ (ih _)

theorem run_append (first rest : List (Nat × Op κ ν ρ)) (state : σ) :
    (run perform (first ++ rest) state).2 = (run perform rest (run perform first state).2).2 := by
  induction first generalizing state with
  | nil => rfl
  | cons step first ih => exact ih _

theorem preserved_of_log {P : σ → Prop} {Kind : Event κ ν ρ → Prop}
    (step : ∀ {state} now op, P state → Kind ⟨now, op, (perform now op state).1⟩ →
      P (perform now op state).2)
    (h : P state) (ops : List (Nat × Op κ ν ρ)) (all : ∀ event ∈ log perform ops state, Kind event) :
    P (run perform ops state).2 := by
  induction ops generalizing state with
  | nil => exact h
  | cons first ops ih =>
      obtain ⟨here, rest⟩ := List.forall_mem_cons.mp all
      exact ih (step first.1 first.2 h here) rest

theorem preserved {P : σ → Prop}
    (step : ∀ {state} now op, P state → P (perform now op state).2) (h : P state)
    (ops : List (Nat × Op κ ν ρ)) : P (run perform ops state).2 :=
  preserved_of_log (fun now op h _ => step now op h) h ops fun _ _ => trivial

theorem exists_of_log {earlier later : List (Event κ ν ρ)} {event : Event κ ν ρ}
    (split : log perform ops state = earlier ++ event :: later) :
    ∃ first now op rest, ops = first ++ (now, op) :: rest ∧ log perform first state = earlier ∧
      ⟨now, op, (perform now op (run perform first state).2).1⟩ = event ∧
      log perform rest (perform now op (run perform first state).2).2 = later := by
  induction earlier generalizing ops state with
  | nil =>
      cases ops with
      | nil => cases split
      | cons step rest =>
          obtain ⟨rfl, rfl⟩ := List.cons_eq_cons.mp split
          exact ⟨[], step.1, step.2, rest, rfl, rfl, rfl, rfl⟩
  | cons head earlier ih =>
      cases ops with
      | nil => cases split
      | cons step ops =>
          obtain ⟨rfl, tail⟩ := List.cons_eq_cons.mp split
          obtain ⟨first, now, op, rest, rfl, rfl, same, after⟩ := ih tail
          exact ⟨step :: first, now, op, rest, rfl, rfl, same, after⟩

theorem mem_of_mem_log {event : Event κ ν ρ} (member : event ∈ log perform ops state) :
    (event.time, event.op) ∈ ops := by
  obtain ⟨earlier, later, split⟩ := List.append_of_mem member
  obtain ⟨first, now, op, rest, rfl, -, rfl, -⟩ := exists_of_log split
  exact List.mem_append_right first List.mem_cons_self

end Log

end Cache

namespace UseList

open Cache

variable {κ ν ρ : Type} [DecidableEq κ] {list : UseList κ ν} {use : Use κ ν} {key : κ}

structure Sound (list : UseList κ ν) : Prop where
  nodup : (list.uses.map (·.key)).Nodup
  empty_of_closed : list.closed → list.uses = []

inductive Origin (list : UseList κ ν) (event : Event κ ν ρ) (use : Use κ ν) : Prop
  | put (previous : Option ν) (isOpen : list.closed = false)
      (event_eq : event = ⟨event.time, .put use.key use.value, .put (.ok previous)⟩)
      (expiresAt_eq : use.expiresAt = event.time + list.lifeSpan)
  | kept (old : Use κ ν) (member : old ∈ list.uses) (key_eq : old.key = use.key)
      (expiresAt_eq : old.expiresAt = use.expiresAt) (spares : event.Spares use.key)
      (found : event.time < use.expiresAt → ¬ event.Misses use.key)
      (value_eq : use.value = event.edit use.key old.value)

theorem origin_of_unread {event : Event κ ν ρ} (member : use ∈ list.uses)
    (spares : event.Spares use.key)
    (unread : event.op.reading?.map (·.1) ≠ some use.key) : list.Origin event use := by
  refine .kept use member rfl rfl spares (fun _ misses => unread misses.1) ?_
  rw [Event.edit]
  split
  case h_1 other change reads =>
    rw [reads, Option.map_some] at unread
    exact (if_neg fun both => unread (congrArg some both.1)).symm
  case h_2 => rfl

theorem key_of_live? {now : Nat} (living : list.live? key now = some use) : use.key = key := by
  rw [live?, Option.filter_eq_some_iff] at living
  simpa using List.find?_some living.1

theorem read_cases {op : Op κ ν ρ} {change : ν → ν} (reads : op.reading? = some (key, change))
    (now : Nat) :
    (list.live? key now = none ∧ (list.perform now op).1.found = false ∧
      (list.perform now op).2 = list) ∨
    ∃ use, list.live? key now = some use ∧ (list.perform now op).1.found = true ∧
      (list.perform now op).2 =
        { list with uses := list.without key ++ [{ use with value := change use.value }] } := by
  cases op with
  | get other =>
      cases reads
      rw [UseList.perform, get, withValue]
      cases living : list.live? key now with
      | none => exact .inl ⟨rfl, rfl, rfl⟩
      | some use => exact .inr ⟨use, rfl, rfl, rfl⟩
  | withValue other run =>
      cases reads
      rw [UseList.perform, withValue]
      cases living : list.live? key now with
      | none => exact .inl ⟨rfl, rfl, rfl⟩
      | some use => exact .inr ⟨use, rfl, rfl, rfl⟩
  | put | remove | contains | size | sweep | clear => cases reads

theorem settings_perform (list : UseList κ ν) (now : Nat) (op : Op κ ν ρ) :
    (list.perform now op).2.capacity = list.capacity ∧
      (list.perform now op).2.lifeSpan = list.lifeSpan ∧
      (op ≠ .clear → (list.perform now op).2.closed = list.closed) := by
  cases reads : op.reading? with
  | some reading =>
      rcases read_cases reads now with ⟨-, -, after⟩ | ⟨use, -, -, after⟩
      · exact after ▸ ⟨rfl, rfl, fun _ => rfl⟩
      · exact after ▸ ⟨rfl, rfl, fun _ => rfl⟩
  | none =>
      cases op with
      | get | withValue => cases reads
      | put key value =>
          rw [UseList.perform, put]
          split
          · exact ⟨rfl, rfl, fun _ => rfl⟩
          · exact ⟨rfl, rfl, fun _ => rfl⟩
      | remove | contains | size | sweep => exact ⟨rfl, rfl, fun _ => rfl⟩
      | clear => exact ⟨rfl, rfl, fun differs => absurd rfl differs⟩

theorem settings_run (ops : List (Nat × Op κ ν ρ)) (list : UseList κ ν) :
    (run UseList.perform ops list).2.capacity = list.capacity ∧
      (run UseList.perform ops list).2.lifeSpan = list.lifeSpan := by
  refine preserved (P := fun after : UseList κ ν =>
    after.capacity = list.capacity ∧ after.lifeSpan = list.lifeSpan) ?_ ⟨rfl, rfl⟩ ops
  intro after now op same
  obtain ⟨capacity, lifeSpan, -⟩ := settings_perform after now op
  exact ⟨capacity.trans same.1, lifeSpan.trans same.2⟩

theorem uses_perform (list : UseList κ ν) (now : Nat) (op : Op κ ν ρ) :
    (list.perform now op).2.uses.Sublist list.uses ∨
      ∃ use, (list.perform now op).2.uses.Sublist (list.without use.key ++ [use]) := by
  cases reads : op.reading? with
  | some reading =>
      rcases read_cases reads now with ⟨-, -, after⟩ | ⟨use, living, -, after⟩
      · exact .inl (after ▸ .refl _)
      · have same := key_of_live? living
        exact .inr ⟨{ use with value := reading.2 use.value }, by rw [after, same]⟩
  | none =>
      cases op with
      | get | withValue => cases reads
      | put key value =>
          rw [UseList.perform, put]
          split
          · exact .inl (.refl _)
          · exact .inr ⟨⟨key, value, now + list.lifeSpan⟩, List.drop_sublist ..⟩
      | remove | sweep => exact .inl List.filter_sublist
      | contains | size => exact .inl (.refl _)
      | clear => exact .inl (List.nil_sublist _)

theorem mem_without : use ∈ list.without key ↔ use ∈ list.uses ∧ use.key ≠ key := by
  rw [without, List.mem_filter, decide_eq_true_iff]

theorem find?_of_mem (nodup : (list.uses.map (·.key)).Nodup) (member : use ∈ list.uses) :
    list.find? use.key = some use := by
  obtain ⟨found, search⟩ : ∃ found, list.find? use.key = some found := by
    rw [← Option.isSome_iff_exists, find?, List.find?_isSome]
    exact ⟨use, member, decide_eq_true rfl⟩
  have same : found.key = use.key := by simpa using List.find?_some search
  rw [search, List.inj_on_of_nodup_map nodup (List.mem_of_find?_eq_some search) member same]

namespace Sound

variable (h : list.Sound)

include h

theorem live?_eq_some_iff {now : Nat} :
    list.live? key now = some use ↔ use ∈ list.uses ∧ use.key = key ∧ now < use.expiresAt := by
  rw [live?, Option.filter_eq_some_iff, decide_eq_true_iff]
  constructor
  · rintro ⟨search, young⟩
    exact ⟨List.mem_of_find?_eq_some search, by simpa using List.find?_some search, young⟩
  · rintro ⟨member, rfl, young⟩
    exact ⟨find?_of_mem h.nodup member, young⟩

theorem live?_eq_none_iff {now : Nat} :
    list.live? key now = none ↔ ∀ use ∈ list.uses, use.key = key → use.expiresAt ≤ now := by
  rw [Option.eq_none_iff_forall_ne_some]
  constructor
  · intro missing use member same
    by_contra young
    exact missing use (h.live?_eq_some_iff.mpr ⟨member, same, Nat.lt_of_not_le young⟩)
  · intro dead use living
    obtain ⟨member, same, young⟩ := h.live?_eq_some_iff.mp living
    exact Nat.not_le_of_lt young (dead use member same)

theorem nodup_without_append (use : Use κ ν) :
    ((list.without use.key ++ [use]).map (·.key)).Nodup := by
  rw [List.map_append, List.nodup_append]
  refine ⟨h.nodup.sublist (List.filter_sublist.map _), List.nodup_singleton _, ?_⟩
  intro key old key' new same
  obtain ⟨other, member, rfl⟩ := List.mem_map.mp old
  exact (mem_without.mp member).2 (same.trans (List.mem_singleton.mp new))

theorem origin_read {op : Op κ ν ρ} {change : ν → ν} (reads : op.reading? = some (key, change))
    {now : Nat} (member : use ∈ (list.perform now op).2.uses) :
    list.Origin ⟨now, op, (list.perform now op).1⟩ use := by
  have spares : Event.Spares use.key ⟨now, op, (list.perform now op).1⟩ := .of_reading reads
  rcases read_cases reads now with ⟨missed, found, after⟩ | ⟨old, living, found, after⟩
  · rw [after] at member
    refine .kept use member rfl rfl spares ?_ ?_
    · rintro young ⟨here, -⟩
      rw [reads] at here
      cases here
      exact Nat.not_le_of_lt young (h.live?_eq_none_iff.mp missed use member rfl)
    · simp [Event.edit, reads, found]
  · obtain ⟨there, rfl, young⟩ := h.live?_eq_some_iff.mp living
    rw [after, List.mem_append, List.mem_singleton, mem_without] at member
    rcases member with ⟨member, differs⟩ | rfl
    · refine origin_of_unread member spares ?_
      rw [reads]
      exact fun same => differs (Option.some.inj same).symm
    · refine .kept old there rfl rfl spares ?_ ?_
      · rintro - ⟨-, missed⟩
        rw [found] at missed
        cases missed
      · simp [Event.edit, reads, found]

theorem origin {now : Nat} {op : Op κ ν ρ} (member : use ∈ (list.perform now op).2.uses) :
    list.Origin ⟨now, op, (list.perform now op).1⟩ use := by
  cases op with
  | get key => exact h.origin_read rfl member
  | withValue key run => exact h.origin_read rfl member
  | put key value =>
      rw [UseList.perform, UseList.put] at member ⊢
      split at member
      case isTrue isClosed =>
        -- A refused put has nothing to spare.
        change use ∈ list.uses at member
        rw [h.empty_of_closed isClosed] at member
        cases member
      case isFalse isOpen =>
        rcases List.mem_append.mp (List.mem_of_mem_drop member) with old | new
        · obtain ⟨member, differs⟩ := mem_without.mp old
          exact origin_of_unread member ⟨by simp [differs.symm], by simp, by simp⟩
            (by simp [Op.reading?])
        · cases List.mem_singleton.mp new
          rw [if_neg isOpen]
          exact .put _ (by simpa using isOpen) rfl rfl
  | remove key =>
      obtain ⟨member, differs⟩ := mem_without.mp member
      exact origin_of_unread member ⟨by simp, by simp [differs.symm], by simp⟩
        (by simp [Op.reading?])
  | contains | size =>
      exact origin_of_unread member ⟨by simp, by simp, by simp⟩ (by simp [Op.reading?])
  | sweep =>
      exact origin_of_unread (List.mem_of_mem_filter member) ⟨by simp, by simp, by simp⟩
        (by simp [Op.reading?])
  | clear => cases member

theorem perform (now : Nat) (op : Op κ ν ρ) : (list.perform now op).2.Sound where
  nodup := by
    rcases uses_perform list now op with old | ⟨use, new⟩
    · exact h.nodup.sublist (old.map _)
    · exact (h.nodup_without_append use).sublist (new.map _)
  empty_of_closed := by
    intro isClosed
    by_cases clears : op = .clear
    · rw [clears]
      rfl
    · rw [(settings_perform list now op).2.2 clears] at isClosed
      rw [List.eq_nil_iff_forall_not_mem]
      intro use member
      cases h.origin member with
      | put _ isOpen =>
          rw [isOpen] at isClosed
          cases isClosed
      | kept old member =>
          rw [h.empty_of_closed isClosed] at member
          cases member

theorem run (ops : List (Nat × Op κ ν ρ)) : (Cache.run UseList.perform ops list).2.Sound :=
  preserved (fun now op sound => sound.perform now op) h ops

end Sound

omit [DecidableEq κ] in
theorem sound_ofConfig (config : Config) : (.ofConfig config : UseList κ ν).Sound :=
  ⟨List.nodup_nil, nofun⟩

end UseList

namespace Cache

variable {κ ν ρ : Type} [DecidableEq κ] {cache : Cache κ ν}

theorem withValue_fst (cache : Cache κ ν) (key : κ) (body : ν → ρ × ν) (now : Nat) :
    (cache.withValue key body now).1 =
      (cache.live? key now).map fun entry => (body entry.value).1 := by
  rw [withValue]
  cases cache.live? key now with
  | none => rfl
  | some entry => rfl

namespace Consistent

theorem run (h : cache.Consistent) (ops : List (Nat × Op κ ν ρ)) :
    (Cache.run Cache.perform ops cache).2.Consistent :=
  preserved (fun now op consistent => consistent.perform now op) h ops

theorem log_useList (h : cache.Consistent) (ops : List (Nat × Op κ ν ρ)) :
    log UseList.perform ops cache.useList = log Cache.perform ops cache := by
  induction ops generalizing cache with
  | nil => rfl
  | cons step ops ih =>
      rw [log, log, h.perform_useList]
      exact congrArg _ (ih (h.perform step.1 step.2))

theorem useList_run (h : cache.Consistent) (ops : List (Nat × Op κ ν ρ)) :
    (Cache.run Cache.perform ops cache).2.useList =
      (Cache.run UseList.perform ops cache.useList).2 := by
  rw [h.run_useList, Prod.map]

theorem contains_run (h : cache.Consistent) (ops : List (Nat × Op κ ν ρ)) (key : κ) (now : Nat) :
    (Cache.run Cache.perform ops cache).2.contains key now =
      (Cache.run UseList.perform ops cache.useList).2.contains key now := by
  rw [← h.useList_run, (h.run ops).contains_useList]

end Consistent

end Cache

end NodeProtocol
