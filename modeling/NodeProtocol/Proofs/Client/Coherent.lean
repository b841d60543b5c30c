import NodeProtocol.Proofs.Cache.Ranking
import NodeProtocol.Proofs.Client.Turn

namespace NodeProtocol.Client

namespace Turn

def ended (turn : Turn) (earlier : List CallId) : List CallId :=
  earlier ++ turn.finished.map (·.1)

def Live (turn : Turn) (earlier : List CallId) (call : CallId) : Prop :=
  call < turn.session.started ∧ call ∉ turn.ended earlier

def Unregistered (turn : Turn) (call : CallId) : Prop :=
  ∀ hash, turn.session.registry.pending.get? hash ≠ some call

structure Coherent (earlier loose : List CallId) (turn : Turn) : Prop where
  nodup_tasks : (turn.session.tasks.map (·.call)).Nodup
  nodup_ended : (turn.ended earlier).Nodup
  ended_lt : ∀ call ∈ turn.ended earlier, call < turn.session.started
  task_live : ∀ task ∈ turn.session.tasks, turn.Live earlier task.call
  pending_iff : ∀ {hash call}, turn.session.registry.pending.get? hash = some call ↔
    call ∉ loose ∧
      ∃ aim ticket, ⟨call, .awaiting aim ticket⟩ ∈ turn.session.tasks ∧ ticket.hash = hash
  inFlight_fits : ∀ {call aim ticket entry}, call ∉ loose →
    ⟨call, .awaiting aim ticket⟩ ∈ turn.session.tasks →
    turn.session.registry.inFlight.entries.get? ticket.hash = some entry →
    entry.value = ticket.request
  aligned : turn.session.registry.Aligned

variable {earlier loose loose' : List CallId} {turn after before : Turn} {call : CallId}

theorem mem_finish {outcome : Outcome} {task : Task} :
    task ∈ (turn.finish call outcome).session.tasks ↔
      task ∈ turn.session.tasks ∧ task.call ≠ call := by
  simp [finish]

theorem mem_await {task new : Task} :
    task ∈ (turn.await new).session.tasks ↔
      task ∈ turn.session.tasks ∧ task.call ≠ new.call ∨ task = new := by
  simp [await, modify]

theorem nodup_calls_await (h : (turn.session.tasks.map (·.call)).Nodup) (new : Task) :
    ((turn.await new).session.tasks.map (·.call)).Nodup := by
  change ((turn.session.tasks.filter (·.call ≠ new.call) ++ [new]).map (·.call)).Nodup
  rw [List.map_append, List.map_singleton, List.nodup_append]
  refine ⟨h.sublist (List.filter_sublist.map _), List.nodup_singleton _, ?_⟩
  intro call member last here equal
  obtain ⟨task, kept, rfl⟩ := List.mem_map.mp member
  rw [List.mem_singleton.mp here] at equal
  exact of_decide_eq_true (List.mem_filter.mp kept).2 equal

theorem ended_finish_perm (turn : Turn) (earlier : List CallId) (call : CallId)
    (outcome : Outcome) :
    ((turn.finish call outcome).ended earlier).Perm (call :: turn.ended earlier) := by
  have inserted := (Ranking.insert_perm (fun a b => decide (a < b)) call outcome turn.finished).map
    (·.1)
  exact (inserted.append_left earlier).trans List.perm_middle

theorem Live.sameCalls (h : before.Live earlier call) (same : SameCalls after before) :
    after.Live earlier call := by
  rw [Live, ended, same.started, same.finished]
  exact h

theorem Unregistered.sameCalls (h : before.Unregistered call) (same : SameCalls after before) :
    after.Unregistered call := by
  intro hash
  rw [same.pending]
  exact h hash

namespace Coherent

theorem sameCalls (h : Coherent earlier loose before) (same : SameCalls after before) :
    Coherent earlier loose after where
  nodup_tasks := same.tasks ▸ h.nodup_tasks
  nodup_ended := by
    rw [ended, same.finished]
    exact h.nodup_ended
  ended_lt := by
    rw [ended, same.finished, same.started]
    exact h.ended_lt
  task_live := by
    intro task member
    exact (h.task_live task (same.tasks ▸ member)).sameCalls same
  pending_iff := by
    intro hash call
    rw [same.pending, same.tasks]
    exact h.pending_iff
  inFlight_fits tight waits found :=
    h.inFlight_fits tight (same.tasks ▸ waits) (same.inFlight found)
  aligned := same.aligned h.aligned

theorem stage_eq (h : Coherent earlier loose turn) {stage stage' : Stage}
    (here : ⟨call, stage⟩ ∈ turn.session.tasks) (there : ⟨call, stage'⟩ ∈ turn.session.tasks) :
    stage = stage' := by
  have same := List.inj_on_of_nodup_map h.nodup_tasks here there rfl
  exact congrArg Task.stage same

theorem stage?_iff (h : Coherent earlier loose turn) {stage : Stage} :
    turn.session.stage? call = some stage ↔ ⟨call, stage⟩ ∈ turn.session.tasks :=
  ⟨Session.mem_of_stage?, Session.stage?_of_mem h.nodup_tasks⟩

theorem finish (h : Coherent earlier loose turn) (live : turn.Live earlier call)
    (unregistered : turn.Unregistered call)
    (same : ∀ other ≠ call, other ∈ loose' ↔ other ∈ loose) (outcome : Outcome) :
    Coherent earlier loose' (turn.finish call outcome) where
  nodup_tasks := h.nodup_tasks.sublist (List.filter_sublist.map _)
  nodup_ended := by
    rw [(ended_finish_perm turn earlier call outcome).nodup_iff]
    exact List.nodup_cons.mpr ⟨live.2, h.nodup_ended⟩
  ended_lt := by
    intro other member
    rw [(ended_finish_perm turn earlier call outcome).mem_iff, List.mem_cons] at member
    rcases member with rfl | member
    · exact live.1
    · exact h.ended_lt other member
  task_live := by
    intro task member
    obtain ⟨member, differs⟩ := mem_finish.mp member
    obtain ⟨started, going⟩ := h.task_live task member
    refine ⟨started, ?_⟩
    rw [(ended_finish_perm turn earlier call outcome).mem_iff, List.mem_cons, not_or]
    exact ⟨differs, going⟩
  pending_iff := by
    intro hash other
    by_cases equal : other = call
    · subst equal
      constructor
      · exact fun found => absurd found (unregistered hash)
      · rintro ⟨-, aim, ticket, waits, -⟩
        exact absurd rfl (mem_finish.mp waits).2
    · simp only [mem_finish, same other equal, ne_eq, equal, not_false_eq_true, and_true]
      exact h.pending_iff
  inFlight_fits := by
    intro other aim ticket entry tight waits found
    obtain ⟨waits, differs⟩ := mem_finish.mp waits
    exact h.inFlight_fits (mt (same other differs).mpr tight) waits found
  aligned := h.aligned

theorem await {stage : Stage} (h : Coherent earlier loose before) (live : before.Live earlier call)
    (same : ∀ other ≠ call, other ∈ loose' ↔ other ∈ loose)
    (tight : ∀ {aim ticket}, stage = .awaiting aim ticket → call ∉ loose')
    (tasks : after.session.tasks = before.session.tasks)
    (started : after.session.started = before.session.started)
    (finished : after.finished = before.finished)
    (pending : ∀ {hash other}, after.session.registry.pending.get? hash = some other ↔
      if other = call then ∃ aim ticket, stage = .awaiting aim ticket ∧ ticket.hash = hash
      else before.session.registry.pending.get? hash = some other)
    (others : ∀ {hash other entry}, before.session.registry.pending.get? hash = some other →
      other ≠ call → after.session.registry.inFlight.entries.get? hash = some entry →
      before.session.registry.inFlight.entries.get? hash = some entry)
    (own : ∀ {aim ticket entry}, stage = .awaiting aim ticket →
      after.session.registry.inFlight.entries.get? ticket.hash = some entry →
      entry.value = ticket.request)
    (aligned : after.session.registry.Aligned) :
    Coherent earlier loose' (after.await ⟨call, stage⟩) := by
  have mem_iff {task : Task} : task ∈ (after.await ⟨call, stage⟩).session.tasks ↔
      task ∈ before.session.tasks ∧ task.call ≠ call ∨ task = ⟨call, stage⟩ := by
    rw [mem_await, tasks]
  have ended_eq : (after.await ⟨call, stage⟩).ended earlier = before.ended earlier :=
    congrArg (earlier ++ ·.map (·.1)) finished
  have started_eq : (after.await ⟨call, stage⟩).session.started = before.session.started := started
  refine ⟨?_, ended_eq ▸ h.nodup_ended, ?_, ?_, ?_, ?_, aligned⟩
  · have nodup := h.nodup_tasks
    rw [← tasks] at nodup
    exact nodup_calls_await nodup _
  · rw [ended_eq, started_eq]
    exact h.ended_lt
  · intro task member
    rw [Live, ended_eq, started_eq]
    rcases mem_iff.mp member with ⟨member, -⟩ | rfl
    · exact h.task_live task member
    · exact live
  · intro hash other
    change after.session.registry.pending.get? hash = some other ↔ _
    rw [pending]
    split
    case isTrue equal =>
      subst equal
      constructor
      · rintro ⟨aim, ticket, rfl, names⟩
        exact ⟨tight rfl, aim, ticket, mem_iff.mpr (.inr rfl), names⟩
      · rintro ⟨-, aim, ticket, waits, names⟩
        rcases mem_iff.mp waits with ⟨-, differs⟩ | equal
        · exact absurd rfl differs
        · exact ⟨aim, ticket, (congrArg Task.stage equal).symm, names⟩
    case isFalse differs =>
      rw [h.pending_iff, same other differs]
      constructor
      · rintro ⟨tight, aim, ticket, waits, names⟩
        exact ⟨tight, aim, ticket, mem_iff.mpr (.inl ⟨waits, differs⟩), names⟩
      · rintro ⟨tight, aim, ticket, waits, names⟩
        rcases mem_iff.mp waits with ⟨waits, -⟩ | equal
        · exact ⟨tight, aim, ticket, waits, names⟩
        · exact absurd (congrArg Task.call equal) differs
  · intro other aim ticket entry tight waits found
    rcases mem_iff.mp waits with ⟨waits, differs⟩ | equal
    · have tight : other ∉ loose := mt (same other differs).mpr tight
      have registered := h.pending_iff.mpr ⟨tight, aim, ticket, waits, rfl⟩
      exact h.inFlight_fits tight waits (others registered differs found)
    · cases equal
      exact own rfl found

theorem idle {stage : Stage} (h : Coherent earlier loose turn) (live : turn.Live earlier call)
    (unregistered : turn.Unregistered call)
    (same : ∀ other ≠ call, other ∈ loose' ↔ other ∈ loose)
    (still : ∀ {aim ticket}, stage ≠ .awaiting aim ticket) :
    Coherent earlier loose' (turn.await ⟨call, stage⟩) := by
  refine h.await live same (fun waits => absurd waits still) rfl rfl rfl ?_
    (fun _ _ found => found) (fun waits => absurd waits still) h.aligned
  intro hash other
  split
  case isTrue equal =>
    subst equal
    constructor
    · exact fun found => absurd found (unregistered hash)
    · rintro ⟨aim, ticket, waits, -⟩
      exact absurd waits still
  case isFalse => rfl

theorem accept {aim : Aim} {query : Query} {ticket : Ticket} (h : Coherent earlier [] before)
    (live : before.Live earlier call) (unregistered : before.Unregistered call)
    (accepted : Accepted call query ticket after before) :
    Coherent earlier [] (after.await ⟨call, .awaiting aim ticket⟩) := by
  refine h.await live (fun _ _ => Iff.rfl) (fun _ => List.not_mem_nil) accepted.tasks
    accepted.started accepted.finished ?_ ?_ ?_ (accepted.aligned h.aligned)
  · intro hash other
    rw [accepted.pending, Table.get?_insert]
    by_cases own : hash = ticket.hash
    · rw [if_pos own, own, accepted.unused]
      by_cases equal : other = call
      · simp [equal]
      · simp [equal, Ne.symm equal]
    · rw [if_neg own]
      by_cases equal : other = call
      · have absent : before.session.registry.pending.get? hash ≠ some call := unregistered hash
        simp [equal, absent, Ne.symm own]
      · rw [if_neg equal]
  · intro hash other entry registered differs found
    have entry_from := accepted.inFlight found
    split at entry_from
    case isTrue same =>
      rw [same, accepted.unused] at registered
      cases registered
    case isFalse => exact entry_from
  · intro aim' ticket' entry equal found
    cases equal
    have entry_from := accepted.inFlight found
    rwa [if_pos rfl] at entry_from

theorem loosen {hash : Hash} (h : Coherent earlier [] turn)
    (found : turn.session.registry.pending.get? hash = some call) (now : Nat) :
    Coherent earlier [call] (turn.withRegistry (turn.session.registry.forget hash now).2) where
  nodup_tasks := h.nodup_tasks
  nodup_ended := h.nodup_ended
  ended_lt := h.ended_lt
  task_live := h.task_live
  pending_iff := by
    intro other_hash other
    change (turn.session.registry.pending.erase hash).get? other_hash = some other ↔ _
    obtain ⟨-, aim, ticket, waits, rfl⟩ := h.pending_iff.mp found
    rw [Table.get?_erase]
    constructor
    · intro registered
      split at registered
      · cases registered
      case isFalse differs =>
        obtain ⟨-, aim', ticket', waits', same⟩ := h.pending_iff.mp registered
        refine ⟨?_, aim', ticket', waits', same⟩
        intro member
        cases List.mem_singleton.mp member
        cases h.stage_eq waits waits'
        exact differs same.symm
    · rintro ⟨apart, aim', ticket', waits', same⟩
      have registered := h.pending_iff.mpr ⟨List.not_mem_nil, aim', ticket', waits', same⟩
      split
      case isTrue equal =>
        rw [equal, found] at registered
        cases registered
        exact absurd (List.mem_singleton_self _) apart
      case isFalse => exact registered
  inFlight_fits _ waits there :=
    h.inFlight_fits List.not_mem_nil waits (Cache.get?_of_remove hash now there)
  aligned := h.aligned.forget hash now

theorem tighten (h : Coherent earlier (call :: loose) turn)
    (idle : ∀ aim ticket, turn.session.stage? call ≠ some (.awaiting aim ticket)) :
    Coherent earlier loose turn := by
  have waits_not {other : CallId} {aim : Aim} {ticket : Ticket}
      (waits : ⟨other, .awaiting aim ticket⟩ ∈ turn.session.tasks) : other ≠ call := by
    rintro rfl
    exact idle aim ticket (h.stage?_iff.mpr waits)
  refine ⟨h.nodup_tasks, h.nodup_ended, h.ended_lt, h.task_live, ?_, ?_, h.aligned⟩
  · intro hash other
    rw [h.pending_iff]
    constructor
    · rintro ⟨tight, waits⟩
      exact ⟨mt (List.mem_cons_of_mem _) tight, waits⟩
    · rintro ⟨tight, aim, ticket, waits, same⟩
      exact ⟨by simp [waits_not waits, tight], aim, ticket, waits, same⟩
  · intro other aim ticket entry tight waits found
    exact h.inFlight_fits (by simp [waits_not waits, tight]) waits found

theorem stop (h : Coherent earlier [] turn) :
    Coherent earlier turn.session.registry.stop.1
      (turn.withRegistry turn.session.registry.stop.2) where
  nodup_tasks := h.nodup_tasks
  nodup_ended := h.nodup_ended
  ended_lt := h.ended_lt
  task_live := h.task_live
  pending_iff := by
    intro hash call
    constructor
    · intro found
      cases found
    · rintro ⟨apart, aim, ticket, waits, -⟩
      have registered := h.pending_iff.mpr ⟨List.not_mem_nil, aim, ticket, waits, rfl⟩
      exact absurd (List.mem_map_of_mem (Table.mem_of_get? registered)) apart
  inFlight_fits _ waits found := h.inFlight_fits List.not_mem_nil waits found
  aligned := .stop _

theorem begin (h : Coherent earlier [] turn) : Coherent earlier [] turn.begin.2 where
  nodup_tasks := h.nodup_tasks
  nodup_ended := h.nodup_ended
  ended_lt call member := Nat.lt_succ_of_lt (h.ended_lt call member)
  task_live task member :=
    have live := h.task_live task member
    ⟨Nat.lt_succ_of_lt live.1, live.2⟩
  pending_iff := h.pending_iff
  inFlight_fits := h.inFlight_fits
  aligned := h.aligned

theorem live_begin (h : Coherent earlier [] turn) : turn.begin.2.Live earlier turn.begin.1 :=
  ⟨Nat.lt_succ_self _, fun member => Nat.lt_irrefl _ (h.ended_lt _ member)⟩

theorem unregistered_begin (h : Coherent earlier [] turn) :
    turn.begin.2.Unregistered turn.begin.1 := by
  intro hash found
  obtain ⟨-, aim, ticket, waits, -⟩ := h.pending_iff.mp found
  exact Nat.lt_irrefl _ (h.task_live _ waits).1

theorem initial {session : Session} (tasks : session.tasks = [])
    (pending : session.registry.pending = .empty)
    (inFlight : session.registry.inFlight.entries = .empty) :
    Coherent [] [] (Turn.start session) where
  nodup_tasks := by
    rw [Turn.start, tasks]
    exact List.nodup_nil
  nodup_ended := List.nodup_nil
  ended_lt _ member := by cases member
  task_live task member := by
    rw [Turn.start, tasks] at member
    cases member
  pending_iff := by
    intro hash call
    simp [Turn.start, tasks, pending]
  inFlight_fits _ waits := by
    rw [Turn.start, tasks] at waits
    cases waits
  aligned := .initial pending inFlight

theorem next (h : Coherent earlier [] turn) :
    Coherent (turn.ended earlier) [] (Turn.start turn.session) := by
  have ended_eq : (Turn.start turn.session).ended (turn.ended earlier) = turn.ended earlier :=
    List.append_nil _
  refine ⟨h.nodup_tasks, ?_, ?_, ?_, h.pending_iff, h.inFlight_fits, h.aligned⟩
  · rw [ended_eq]
    exact h.nodup_ended
  · rw [ended_eq]
    exact h.ended_lt
  · intro task member
    rw [Live, ended_eq]
    exact h.task_live task member

theorem unregistered_of_loose (h : Coherent earlier loose turn) (member : call ∈ loose) :
    turn.Unregistered call :=
  fun _ found => (h.pending_iff.mp found).1 member

theorem unregistered_of_idle {stage : Stage} (h : Coherent earlier loose turn)
    (member : ⟨call, stage⟩ ∈ turn.session.tasks)
    (still : ∀ {aim ticket}, stage ≠ .awaiting aim ticket) : turn.Unregistered call := by
  intro hash found
  obtain ⟨-, aim, ticket, waits, -⟩ := h.pending_iff.mp found
  exact still (h.stage_eq member waits)

end Coherent

end Turn

end NodeProtocol.Client
