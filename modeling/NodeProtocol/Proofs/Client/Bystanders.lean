import NodeProtocol.Proofs.Client.Actions

namespace NodeProtocol.Client

inductive Nudged : Option Stage → Option Stage → Prop
  | same {stage : Option Stage} : Nudged stage stage
  | told {aim : Aim} {ticket : Ticket} (result : Except CallError Reply) :
    Nudged (some (.awaiting aim ticket)) (some (.told aim ticket result))

theorem Nudged.trans {first second third : Option Stage} (h : Nudged first second)
    (h' : Nudged second third) : Nudged first third := by
  cases h with
  | same => exact h'
  | told result =>
      cases h'
      exact .told result

theorem Nudged.eq_none {stage : Option Stage} (h : Nudged none stage) : stage = none := by
  cases h
  rfl

theorem Nudged.due {before : Option Stage} {stage : Stage} (h : Nudged before (some stage))
    (config : Config) : ∃ stage', before = some stage' ∧ stage'.due config = stage.due config := by
  cases h with
  | same => exact ⟨stage, rfl, rfl⟩
  | told => exact ⟨_, rfl, rfl⟩

theorem Nudged.eq_of_told {aim : Aim} {ticket : Ticket} {result : Except CallError Reply}
    {stage : Option Stage} (h : Nudged (some (.told aim ticket result)) stage) :
    stage = some (.told aim ticket result) := by
  cases h
  rfl

namespace Turn

variable {turn before between after : Turn} {call other : CallId} {stage : Stage}

/-! ## The stage of a call -/

theorem stage?_congr (tasks : after.session.tasks = before.session.tasks) (call : CallId) :
    after.session.stage? call = before.session.stage? call := by
  rw [Session.stage?, tasks]
  rfl

theorem find?_other (differs : call ≠ other) (tasks : List Task) :
    (tasks.filter (·.call ≠ other)).find? (·.call = call) = tasks.find? (·.call = call) := by
  induction tasks with
  | nil => rfl
  | cons task tasks ih =>
      by_cases here : task.call = call
      · have kept : task.call ≠ other := here ▸ differs
        rw [List.filter_cons_of_pos (by simpa using kept),
          List.find?_cons_of_pos (by simpa using here),
          List.find?_cons_of_pos (by simpa using here)]
      · rw [List.find?_cons_of_neg (by simpa using here), List.filter_cons]
        split
        · rw [List.find?_cons_of_neg (by simpa using here), ih]
        · exact ih

theorem find?_own (call : CallId) (tasks : List Task) :
    (tasks.filter (·.call ≠ call)).find? (·.call = call) = none := by
  simp [List.find?_eq_none]

theorem stage?_finish (differs : call ≠ other) (outcome : Outcome) :
    (turn.finish other outcome).session.stage? call = turn.session.stage? call :=
  congrArg (·.map Task.stage) (find?_other differs turn.session.tasks)

theorem stage?_finish_self (turn : Turn) (call : CallId) (outcome : Outcome) :
    (turn.finish call outcome).session.stage? call = none :=
  congrArg (·.map Task.stage) (find?_own call turn.session.tasks)

theorem stage?_await (differs : call ≠ other) (stage : Stage) :
    (turn.await ⟨other, stage⟩).session.stage? call = turn.session.stage? call := by
  have new : [(⟨other, stage⟩ : Task)].find? (·.call = call) = none := by
    simpa using differs.symm
  have found : (turn.session.tasks.filter (fun task => task.call ≠ other) ++
      [(⟨other, stage⟩ : Task)]).find? (·.call = call) =
        turn.session.tasks.find? (·.call = call) := by
    rw [List.find?_append, new, Option.or_none, find?_other differs]
  exact congrArg (·.map Task.stage) found

theorem stage?_await_self (turn : Turn) (call : CallId) (stage : Stage) :
    (turn.await ⟨call, stage⟩).session.stage? call = some stage := by
  have found : (turn.session.tasks.filter (fun task => task.call ≠ call) ++
      [(⟨call, stage⟩ : Task)]).find? (·.call = call) = some ⟨call, stage⟩ := by
    rw [List.find?_append, find?_own]
    simp
  exact congrArg (·.map Task.stage) found

/-! ## Nobody runs on -/

structure Nudges (before after : Turn) : Prop where
  stage : ∀ call, Nudged (before.session.stage? call) (after.session.stage? call)
  started : after.session.started = before.session.started
  finished : after.finished = before.finished

namespace Nudges

theorem of_tasks (tasks : after.session.tasks = before.session.tasks)
    (started : after.session.started = before.session.started)
    (finished : after.finished = before.finished) : Nudges before after where
  stage call := by
    rw [stage?_congr tasks call]
    exact .same
  started := started
  finished := finished

theorem of_sameCalls (h : SameCalls after before) : Nudges before after :=
  of_tasks h.tasks h.started h.finished

theorem refl (turn : Turn) : Nudges turn turn :=
  of_tasks rfl rfl rfl

theorem trans (h : Nudges before between) (h' : Nudges between after) : Nudges before after where
  stage call := (h.stage call).trans (h'.stage call)
  started := h'.started.trans h.started
  finished := h'.finished.trans h.finished

end Nudges

theorem nudges_tell (turn : Turn) (call : CallId) (result : Except CallError Reply) :
    Nudges turn (turn.tell call result) := by
  rw [tell]
  split
  case h_1 aim ticket waits =>
    refine ⟨fun other => ?_, rfl, rfl⟩
    by_cases own : other = call
    · subst own
      rw [waits, stage?_await_self]
      exact .told result
    · rw [stage?_await own]
      exact .same
  case h_2 => exact .refl turn

theorem nudges_tell_all (calls : List CallId) (turn : Turn) (result : Except CallError Reply) :
    Nudges turn (calls.foldl (·.tell · result) turn) := by
  induction calls generalizing turn with
  | nil => exact .refl turn
  | cons call calls ih => exact (nudges_tell turn call result).trans (ih _)

theorem nudges_forget (turn : Turn) (call : CallId) (ticket : Ticket) :
    Nudges turn (turn.forget call ticket) := by
  have taken : Nudges turn (turn.withRegistry
      (turn.session.registry.forget ticket.hash turn.session.now).2) := .of_tasks rfl rfl rfl
  rw [forget]
  dsimp only
  split
  · split
    · exact taken
    · exact taken.trans (nudges_tell ..)
  · exact taken

theorem nudges_stopReceiving (turn : Turn) (error : CallError) :
    Nudges turn (turn.stopReceiving error) := by
  rw [stopReceiving]
  split
  · have stopped : Nudges turn (turn.withRegistry turn.session.registry.stop.2) :=
      .of_tasks rfl rfl rfl
    exact stopped.trans (nudges_tell_all ..)
  · exact .refl turn

theorem nudges_deliver (turn : Turn) (raw : Bytes) : Nudges turn (turn.deliver raw).2 := by
  have received (registry : Registry) : Nudges turn (turn.withRegistry registry) :=
    .of_tasks rfl rfl rfl
  by_cases reads : turn.session.reads
  · rw [deliver_of_reads reads]
    split
    · exact (received _).trans (nudges_tell ..)
    · exact received _
  · rw [deliver_of_not_reads reads]
    exact .refl turn

/-! ## One call runs on -/

structure Runs (call : CallId) (before after : Turn) : Prop where
  others : ∀ other ≠ call, Nudged (before.session.stage? other) (after.session.stage? other)
  fresh : ∀ {stage}, after.session.stage? call = some stage →
    before.session.now < stage.due before.session.config
  started : before.session.started ≤ after.session.started
  kept : before.finished ⊆ after.finished
  finished : ∀ {other outcome}, (other, outcome) ∈ after.finished →
    (other, outcome) ∈ before.finished ∨ other = call

theorem Nudges.finish (h : Nudges before after) (call : CallId) (outcome : Outcome) :
    Runs call before (after.finish call outcome) where
  others other differs := by
    rw [stage?_finish differs]
    exact h.stage other
  fresh stands := by
    rw [stage?_finish_self] at stands
    cases stands
  started := Nat.le_of_eq h.started.symm
  kept _ member := Ranking.mem_insert.mpr (.inr (h.finished ▸ member))
  finished member := by
    rcases Ranking.mem_insert.mp member with equal | old
    · cases equal
      exact .inr rfl
    · exact .inl (h.finished ▸ old)

theorem Nudges.await (h : Nudges before after) (call : CallId)
    (fresh : before.session.now < stage.due before.session.config) :
    Runs call before (after.await ⟨call, stage⟩) where
  others other differs := by
    rw [stage?_await differs]
    exact h.stage other
  fresh stands := by
    rw [stage?_await_self] at stands
    cases stands
    exact fresh
  started := Nat.le_of_eq h.started.symm
  kept _ member := h.finished.symm ▸ member
  finished member := .inl (h.finished ▸ member)

theorem runs_request (turn : Turn) (call : CallId) (aim : Aim) (query : Query) :
    Runs call turn (turn.request call aim query) := by
  rcases request_result turn call aim query with
    ⟨after, error, -, same, -, refused⟩ | ⟨after, ticket, -, accepted, -, patient, waits⟩
  · rw [refused]
    exact (Nudges.of_sameCalls same).finish call _
  · rw [waits]
    refine (Nudges.of_tasks accepted.tasks accepted.started accepted.finished).await call ?_
    rw [Stage.due, accepted.request]
    exact Nat.lt_add_of_pos_right (Nat.pos_of_ne_zero patient)

theorem runs_poll (turn : Turn) (call : CallId) (query : Query) (pollsLeft : Nat) :
    Runs call turn (turn.poll call query pollsLeft) := by
  cases pollsLeft with
  | zero => exact (Nudges.refl turn).finish call _
  | succ pollsLeft => exact runs_request turn call _ query

theorem runs_useReply (turn : Turn) (call : CallId) (aim : Aim) (reply : Reply) :
    Runs call turn (turn.useReply call aim reply) := by
  have ends (outcome : Outcome) : Runs call turn (turn.finish call outcome) :=
    (Nudges.refl turn).finish call outcome
  cases aim with
  | reply => exact ends _
  | tokens types =>
      rw [useReply]
      split <;> exact ends _
  | terminalStatus query pollsLeft =>
      rw [useReply]
      split
      · exact ends _
      · split
        case isTrue => exact runs_poll ..
        case isFalse pauses =>
          refine (Nudges.refl turn).await call ?_
          have long : 0 < sleepLength turn.session.config.pollInterval :=
            Nat.lt_min.mpr ⟨Nat.pos_of_ne_zero pauses, by decide⟩
          exact Nat.lt_add_of_pos_right long

theorem runs_wake {aim : Aim} {ticket : Ticket} {result : Except CallError Reply}
    (told : turn.session.stage? call = some (.told aim ticket result)) :
    Runs call turn (turn.wake call) := by
  rw [wake, told]
  dsimp only
  split
  · exact runs_useReply ..
  · exact (nudges_forget turn call ticket).finish call _
  · exact (Nudges.refl turn).finish call _

theorem wake_of_untold
    (untold : ∀ aim ticket result, turn.session.stage? call ≠ some (.told aim ticket result)) :
    turn.wake call = turn := by
  rw [wake]
  split
  case h_1 told => exact absurd told (untold _ _ _)
  case h_2 => rfl

theorem runs_expire (stands : turn.session.stage? call = some stage) :
    Runs call turn (turn.expire call) := by
  rw [expire, stands]
  cases stage with
  | awaiting aim ticket => exact (nudges_forget turn call ticket).finish call _
  | told aim ticket result => exact runs_wake stands
  | pausing query pollsLeft since => exact runs_poll ..

theorem expire_of_none (gone : turn.session.stage? call = none) : turn.expire call = turn := by
  rw [expire, gone]

theorem runs_abort (stands : turn.session.stage? call = some stage) :
    Runs call turn (turn.abort call) := by
  rw [abort, stands]
  cases stage with
  | awaiting aim ticket | told aim ticket result =>
      exact (nudges_forget turn call ticket).finish call _
  | pausing query pollsLeft since => exact (Nudges.refl turn).finish call _

theorem abort_of_none (gone : turn.session.stage? call = none) : turn.abort call = turn := by
  rw [abort, gone]

/-! ## New calls -/

theorem Runs.of_begin (h : Runs call turn.begin.2 after) : Runs call turn after :=
  ⟨h.others, h.fresh, Nat.le_of_succ_le h.started, h.kept, h.finished⟩

theorem runs_call (turn : Turn) (query : Query) : Runs turn.begin.1 turn (turn.call query) :=
  (runs_request turn.begin.2 turn.begin.1 .reply query).of_begin

theorem runs_callAbi (turn : Turn) (service function : UInt8) (signature : Abi.Signature)
    (args : List Abi.Token) (returns : List Abi.Ty) :
    Runs turn.begin.1 turn (turn.callAbi service function signature args returns) := by
  refine Runs.of_begin ?_
  rw [callAbi]
  cases signature.encodeCall args with
  | ok payload => exact runs_request ..
  | error cause => exact (Nudges.refl _).finish ..

theorem runs_notify (turn : Turn) (query : Query) :
    Runs turn.begin.1 turn (turn.notify query) := by
  obtain ⟨after, outcome, same, -, ends⟩ := notify_cases turn query
  rw [ends]
  exact ((Nudges.of_sameCalls same).finish turn.begin.1 outcome).of_begin

theorem runs_pollStatus (turn : Turn) (query : Query) (maxPolls : Nat) :
    Runs turn.begin.1 turn (turn.pollStatus query maxPolls) :=
  (runs_poll turn.begin.2 turn.begin.1 query maxPolls).of_begin

end Turn

/-! ## Actions -/

def Action.Timed (action : Action) : Prop :=
  ∃ duration, action = .perform (.sleep duration) ∨ action = .perform (.jump duration)

def Session.actor? (session : Session) : Action → Option CallId
  | .wake call | .perform (.abort call) => some call
  | .perform (.call _) | .perform (.callAbi ..) | .perform (.notify _)
  | .perform (.pollStatus ..) => some session.started
  | _ => none

namespace Turn

theorem runs_or_nudges_act (session : Session) {action : Action} (untimed : ¬ action.Timed) :
    (∃ call, session.actor? action = some call ∧
      Runs call (start session) ((start session).act action).2) ∨
    Nudges (start session) ((start session).act action).2 := by
  have held (change : Turn → Turn) (acts : Runs (start session).begin.1 (start session)
      (change (start session))) : (∃ call, some session.started = some call ∧
        Runs call (start session) ((start session).whileHeld change)) ∨
      Nudges (start session) ((start session).whileHeld change) := by
    rw [whileHeld]
    split
    · exact .inl ⟨_, rfl, acts⟩
    · exact .inr (.refl _)
  cases action with
  | wake call =>
      by_cases told : ∃ aim ticket result, session.stage? call = some (.told aim ticket result)
      · obtain ⟨aim, ticket, result, told⟩ := told
        exact .inl ⟨call, rfl, runs_wake told⟩
      · have idle : (start session).wake call = start session :=
          wake_of_untold fun aim ticket result stands => told ⟨aim, ticket, result, stands⟩
        refine .inr ?_
        change Nudges (start session) ((start session).wake call)
        rw [idle]
        exact .refl _
  | perform step =>
      cases step with
      | call query => exact held (·.call query) (runs_call ..)
      | callAbi service function signature args returns =>
          exact held (·.callAbi service function signature args returns) (runs_callAbi ..)
      | notify query => exact held (·.notify query) (runs_notify ..)
      | pollStatus query maxPolls => exact held (·.pollStatus query maxPolls) (runs_pollStatus ..)
      | abort call =>
          cases stands : session.stage? call with
          | some stage => exact .inl ⟨call, rfl, runs_abort stands⟩
          | none =>
              have idle : (start session).abort call = start session := abort_of_none stands
              refine .inr ?_
              change Nudges (start session) ((start session).abort call)
              rw [idle]
              exact .refl _
      | reply index body version service =>
          refine .inr ?_
          change Nudges _ ((start session).perform _).2
          rw [perform]
          split
          · exact .refl _
          · exact nudges_deliver ..
      | deliver raw => exact .inr (nudges_deliver ..)
      | sleep duration => exact absurd ⟨duration, .inl rfl⟩ untimed
      | jump duration => exact absurd ⟨duration, .inr rfl⟩ untimed
      | close =>
          refine .inr ?_
          change Nudges _ ((start session).whileHeld (·.close))
          rw [whileHeld]
          split
          · have cleared : Nudges (start session)
                ((start session).withRegistry session.registry.clearInFlight) :=
              .of_tasks rfl rfl rfl
            exact cleared.trans (nudges_stopReceiving ..)
          · exact .refl _
      | releaseClient => exact .inr (.of_tasks rfl rfl rfl)
      | disconnectNode =>
          have cut : Nudges (start session) ((start session).modify fun session =>
              { session with node := { session.node with connected := false } }) :=
            .of_tasks rfl rfl rfl
          exact .inr (cut.trans (nudges_stopReceiving ..))
      | failNextSend error => exact .inr (.of_tasks rfl rfl rfl)
      | failReceive error => exact .inr (nudges_stopReceiving ..)

end Turn

end NodeProtocol.Client
