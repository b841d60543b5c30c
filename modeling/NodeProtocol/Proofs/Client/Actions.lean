import NodeProtocol.Proofs.Client.Moves

namespace NodeProtocol.Client

namespace Session

def reads (session : Session) : Bool :=
  !session.released && session.node.connected && session.registry.receiving

/-- The frame that the pump handles in an action. -/
def inbound? (session : Session) : Action → Option Bytes
  | .perform (.deliver raw) => if session.reads then some raw else none
  | .perform (.reply index body version service) =>
    if session.reads then
      (session.node.requests[index]?).map (Turn.answerFrame · body version service)
    else none
  | _ => none

end Session

namespace Turn

variable {scope : Scope} {turn after before : Turn} {call : CallId}

structure Restaged (call : CallId) (stage : Stage) (after before : Turn) : Prop where
  mem_tasks : ∀ {task}, task ∈ after.session.tasks ↔
    task ∈ before.session.tasks ∧ task.call ≠ call ∨ task = ⟨call, stage⟩
  finished : after.finished = before.finished
  config : after.session.config = before.session.config

theorem deliver_of_reads {raw : Bytes} (reads : turn.session.reads) :
    (turn.deliver raw).2 =
      match turn.session.registry.receive raw turn.session.now with
      | (some (call, result), registry) => (turn.withRegistry registry).tell call result
      | (none, registry) => turn.withRegistry registry := by
  obtain ⟨alive, receiving⟩ : ¬ (turn.session.released || !turn.session.node.connected) ∧
      turn.session.registry.receiving := by
    simpa [Session.reads, and_assoc] using reads
  rw [deliver, if_neg alive, if_pos receiving]
  cases turn.session.registry.receive raw turn.session.now with
  | mk answer registry => cases answer <;> rfl

theorem registry_deliver {raw : Bytes} (reads : turn.session.reads) :
    (turn.deliver raw).2.session.registry =
      (turn.session.registry.receive raw turn.session.now).2 := by
  rw [deliver_of_reads reads]
  split
  case h_1 received =>
    rw [registry_tell, received]
    rfl
  case h_2 received =>
    rw [received]
    rfl

theorem deliver_of_not_reads {raw : Bytes} (h : ¬ turn.session.reads) :
    (turn.deliver raw).2 = turn := by
  rw [deliver]
  split
  case isTrue => rfl
  case isFalse heard =>
    split
    case isTrue receiving => simp_all [Session.reads]
    case isFalse => rfl

theorem deliver_cases {earlier : List CallId} {raw : Bytes} (h : Coherent earlier [] turn)
    (reads : turn.session.reads) :
    ((∀ hash, (Response.parse raw).hash = some hash →
        turn.session.registry.pending.get? hash = none) ∧ SameCalls (turn.deliver raw).2 turn) ∨
    ∃ call aim ticket, (Response.parse raw).hash = some ticket.hash ∧
      ⟨call, .awaiting aim ticket⟩ ∈ turn.session.tasks ∧
      Coherent earlier [] (turn.deliver raw).2 ∧
      Restaged call (.told aim ticket (Registry.judge turn.session.config
        (turn.session.registry.inFlight.remove ticket.hash turn.session.now).1
        (Response.parse raw))) (turn.deliver raw).2 turn := by
  rw [deliver_of_reads reads]
  cases named : (Response.parse raw).hash with
  | none =>
      rw [Registry.receive_of_no_hash named]
      exact .inl ⟨nofun, .refl turn⟩
  | some hash =>
      cases known : turn.session.registry.pending.get? hash with
      | none =>
          rw [Registry.receive_of_unknown named known]
          refine .inl ⟨?_, sameCalls_unregister known⟩
          rintro _ ⟨⟩
          exact known
      | some call =>
          rw [Registry.receive_of_pending named known]
          obtain ⟨-, aim, ticket, waits, rfl⟩ := h.pending_iff.mp known
          have loose := h.loosen known turn.session.now
          refine .inr ⟨call, aim, ticket, rfl, waits, ?_⟩
          dsimp only
          rw [tell_of_awaiting (loose.stage?_iff.mpr waits)]
          exact ⟨loose.tell waits _, ⟨mem_await, rfl, rfl⟩⟩

end Turn

def Step.service? : Step → Option UInt8
  | call query | pollStatus query _ => some query.service
  | callAbi service .. => some service
  | _ => none

def Action.service? : Action → Option UInt8
  | perform step => step.service?
  | wake _ => none

def Step.failure? : Step → Option CallError
  | close => some .closed
  | disconnectNode => some (.transport (.connectionLost "Stream closed"))
  | failReceive error => some (.transport error)
  | _ => none

/-- The errors that an action can tell. A call is left without an answer only if another one was
told something and has not run on yet. -/
def Session.Tells (session : Session) : Action → CallError → Prop
  | .perform step, error =>
    step.failure? = some error ∨ error = .channelClosed ∧ ∃ task ∈ session.tasks, task.stage.isTold
  | .wake _, error =>
    error = .channelClosed ∧
      ∃ call aim ticket, ⟨call, .told aim ticket (.error .channelClosed)⟩ ∈ session.tasks

def Session.scope (session : Session) (earlier : List CallId) (action : Action) : Scope where
  earlier := earlier
  asks call service := call = session.started ∧ action.service? = some service
  tells := session.Tells action

namespace Turn

variable {scope : Scope} {turn : Turn} {session : Session} {earlier : List CallId}

theorem moves_whileHeld (change : Turn → Turn) (acts : Moves scope ([], turn) ([], change turn)) :
    Moves scope ([], turn) ([], turn.whileHeld change) := by
  rw [whileHeld]
  split
  · exact acts
  · exact .refl

theorem act_of_inbound {action : Action} {raw : Bytes}
    (handled : session.inbound? action = some raw) :
    session.reads ∧ ((start session).act action).2 = ((start session).deliver raw).2 := by
  unfold Session.inbound? at handled
  split at handled
  case h_1 =>
    split at handled
    · cases handled
      exact ⟨‹_›, rfl⟩
    · cases handled
  case h_2 index body version service =>
    split at handled
    · obtain ⟨request, found, rfl⟩ := Option.map_eq_some_iff.mp handled
      refine ⟨‹_›, ?_⟩
      change ((start session).perform _).2 = _
      have found : (start session).session.node.requests[index]? = some request := found
      rw [perform, found]
    · cases handled
  case h_3 => cases handled

theorem moves_perform {step : Step} (h : Coherent earlier [] (start session))
    (silent : session.inbound? (.perform step) = none) :
    Moves (session.scope earlier (.perform step)) ([], start session)
      ([], ((start session).perform step).2) := by
  have h : Coherent (session.scope earlier (.perform step)).earlier [] (start session) := h
  have covered {call : CallId} {aim : Aim} {ticket : Ticket} {result : Except CallError Reply}
      (stands : ⟨call, .told aim ticket result⟩ ∈ session.tasks) :
      (session.scope earlier (.perform step)).tells .channelClosed :=
    .inr ⟨rfl, _, stands, rfl⟩
  have fails {error : CallError} (failure : step.failure? = some error) :
      (session.scope earlier (.perform step)).tells error :=
    .inl failure
  cases step with
  | call query => exact moves_whileHeld (·.call query) (moves_request_begin h nofun ⟨rfl, rfl⟩)
  | callAbi service function signature args returns =>
      exact moves_whileHeld (·.callAbi service function signature args returns)
        (moves_callAbi h ⟨rfl, rfl⟩)
  | notify query => exact moves_whileHeld (·.notify query) (moves_notify h query)
  | pollStatus query maxPolls =>
      exact moves_whileHeld (·.pollStatus query maxPolls) (moves_pollStatus h ⟨rfl, rfl⟩ maxPolls)
  | abort call => exact moves_abort h covered call
  | reply index body version service =>
      rw [perform]
      split
      case h_1 => exact .refl
      case h_2 request found =>
        have deaf : ¬ session.reads := by
          intro reads
          have found : session.node.requests[index]? = some request := found
          rw [Session.inbound?, if_pos reads, found] at silent
          cases silent
        dsimp only
        rw [deliver_of_not_reads deaf]
  | deliver raw =>
      have deaf : ¬ session.reads := by
        intro reads
        rw [Session.inbound?, if_pos reads] at silent
        cases silent
      rw [perform]
      dsimp only
      rw [deliver_of_not_reads deaf]
  | sleep duration => exact moves_passAll h covered _
  | jump duration => exact moves_setClock h covered _ Cache.get?_of_sweepAfter
  | close =>
      have cleared : SameCalls ((start session).withRegistry session.registry.clearInFlight)
          (start session) :=
        ⟨rfl, rfl, rfl, rfl, fun _ => rfl, nofun, List.Subset.refl _, fun aligned =>
          aligned.lose nofun⟩
      exact moves_whileHeld (·.close) (.head (.same cleared) (moves_stopReceiving (fails rfl) _))
  | releaseClient =>
      have released : SameCalls ((start session).modify ({ · with held := false }))
          (start session) := sameCalls_modify rfl rfl rfl
      exact .single (.same released)
  | disconnectNode =>
      have cut : SameCalls ((start session).modify fun session =>
          { session with node := { session.node with connected := false } }) (start session) :=
        sameCalls_modify rfl rfl rfl
      exact .head (.same cut) (moves_stopReceiving (fails rfl) _)
  | failNextSend error =>
      have faulty : SameCalls ((start session).modify fun session =>
          { session with sendFaults := session.sendFaults ++ [error] }) (start session) :=
        sameCalls_modify rfl rfl rfl
      exact .single (.same faulty)
  | failReceive error => exact moves_stopReceiving (fails rfl) _

theorem moves_act {action : Action} (h : Coherent earlier [] (start session))
    (silent : session.inbound? action = none) :
    Moves (session.scope earlier action) ([], start session)
      ([], ((start session).act action).2) := by
  cases action with
  | perform step => exact moves_perform h silent
  | wake call =>
      have h : Coherent (session.scope earlier (.wake call)).earlier [] (start session) := h
      exact moves_wake h (fun stands => ⟨rfl, _, _, _, stands⟩) call

theorem Coherent.act (h : Coherent earlier [] (start session)) (action : Action) :
    Coherent earlier [] ((start session).act action).2 := by
  cases handled : session.inbound? action with
  | none =>
      have h' : Coherent (session.scope earlier action).earlier [] (start session) := h
      exact (moves_act h handled).coherent h'
  | some raw =>
      obtain ⟨reads, delivers⟩ := act_of_inbound handled
      rw [delivers]
      rcases deliver_cases h reads with ⟨-, same⟩ | ⟨_, _, _, -, -, coherent, -⟩
      · exact h.sameCalls same
      · exact coherent

end Turn

end NodeProtocol.Client
