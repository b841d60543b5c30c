import NodeProtocol.Proofs.Client.Bystanders
import NodeProtocol.Proofs.Client.Correlation
import NodeProtocol.Proofs.Client.Moments

namespace NodeProtocol.Client

namespace Turn

variable {turn : Turn} {call other : CallId} {aim : Aim} {ticket : Ticket}
  {result : Except CallError Reply}

def Told (turn : Turn) (call : CallId) (aim : Aim) (ticket : Ticket)
    (result : Except CallError Reply) : Prop :=
  turn.session.stage? call = some (.told aim ticket result)

theorem Told.of_nudged {after : Turn} (h : turn.Told call aim ticket result)
    (nudged : Nudged (turn.session.stage? call) (after.session.stage? call)) :
    after.Told call aim ticket result := by
  rw [h] at nudged
  exact nudged.eq_of_told

theorem Told.tell (h : turn.Told call aim ticket result) (other : CallId)
    (result' : Except CallError Reply) : (turn.tell other result').Told call aim ticket result :=
  h.of_nudged ((nudges_tell turn other result').stage call)

theorem Told.wake (h : turn.Told call aim ticket result) (differs : call ≠ other) :
    (turn.wake other).Told call aim ticket result := by
  by_cases told : ∃ aim ticket result, turn.session.stage? other = some (.told aim ticket result)
  · obtain ⟨aim', ticket', result', told⟩ := told
    exact h.of_nudged ((runs_wake told).others call differs)
  · rw [wake_of_untold fun aim' ticket' result' stands => told ⟨aim', ticket', result', stands⟩]
    exact h

theorem finished_wake {outcome : Outcome} (h : turn.Told call aim ticket result)
    (ends : aim.outcome? result = some outcome) :
    (call, outcome) ∈ (turn.wake call).finished := by
  have finishes {after : Turn} : (call, outcome) ∈ (after.finish call outcome).finished :=
    Ranking.mem_insert.mpr (.inl rfl)
  have told : turn.session.stage? call = some (.told aim ticket result) := h
  rw [Turn.wake, told]
  cases result with
  | error cause =>
      cases ends
      cases cause with
      | channelClosed => exact finishes
      | _ => exact finishes
  | ok reply =>
      dsimp only
      cases aim with
      | reply =>
          cases ends
          exact finishes
      | tokens types =>
          rw [Turn.useReply]
          rw [Aim.outcome?] at ends
          cases decoded : Abi.decodeArguments types reply.body with
          | ok tokens =>
              rw [decoded] at ends
              cases ends
              exact finishes
          | error cause =>
              rw [decoded] at ends
              cases ends
              exact finishes
      | terminalStatus query pollsLeft =>
          obtain ⟨status, found, rfl⟩ := Option.map_eq_some_iff.mp ends
          rw [Turn.useReply, found]
          exact finishes

end Turn

namespace Session

open Turn (Told start)

variable {session : Session} {call : CallId} {aim : Aim} {ticket : Ticket}
  {result : Except CallError Reply} {outcome : Outcome}

theorem mem_finished_wakeAll_of_mem {place : CallId × Outcome} {report : Report}
    (h : place ∈ report.finished) (calls : List CallId) (session : Session) :
    place ∈ (wakeAll calls (report, session)).1.finished := by
  induction calls generalizing report session with
  | nil => exact h
  | cons other calls ih => exact ih (mem_finished_append.mpr (.inl h)) _

theorem mem_finished_wakeAll {calls : List CallId} (member : call ∈ calls) (report : Report)
    (told : (start session).Told call aim ticket result)
    (ends : aim.outcome? result = some outcome) :
    (call, outcome) ∈ (wakeAll calls (report, session)).1.finished := by
  induction calls generalizing report session with
  | nil => cases member
  | cons other calls ih =>
      by_cases here : call = other
      · subst here
        have finished : (call, outcome) ∈ (session.act (.wake call)).1.finished :=
          Turn.finished_wake told ends
        exact mem_finished_wakeAll_of_mem (mem_finished_append.mpr (.inr finished)) calls _
      · exact ih ((List.mem_cons.mp member).resolve_left here) _ (told.wake here)

theorem mem_finished_step {step : Step}
    (told : (session.act (.perform step)).2.stage? call = some (.told aim ticket result))
    (ends : aim.outcome? result = some outcome) :
    (call, outcome) ∈ (session.step step).1.finished := by
  have member := mem_toldCalls (mem_of_stage? told)
  exact mem_finished_wakeAll member _ told ends

/-- The request is still in flight: it has not died, and too few calls were registered since. -/
structure InTime (moment session : Session) : Prop where
  alive : session.now < moment.now + session.config.cache.lifeSpan
  recent : session.registrations - moment.registrations < session.config.cache.capacity

/-- What a call that was registered at a moment is told when the response to it is handled. -/
structure Decided (moment session : Session) (request : RequestInfo) (response : Response)
    (result : Except CallError Reply) : Prop where
  late : moment.now + session.config.cache.lifeSpan ≤ session.now → result = .error .expired
  service : InTime moment session → request.service ≠ response.service →
    result = .error (.serviceMismatch request.service response.service)
  version : InTime moment session → request.service = response.service →
    response.version ≠ session.config.protocolVersion →
    result = .error (.versionMismatch session.config.protocolVersion response.version)
  answer : InTime moment session → request.service = response.service →
    response.version = session.config.protocolVersion →
    result = .ok ⟨response.version, response.service, response.body⟩
  beforeDeadline : session.config.requestTimeout ≤ session.config.cache.lifeSpan →
    session.now < moment.now + session.config.requestTimeout →
    session.registrations - moment.registrations < session.config.cache.capacity →
    request.service = response.service → response.version = session.config.protocolVersion →
    result = .ok ⟨response.version, response.service, response.body⟩

theorem Retains.decided {moment : Session} (h : Retains ticket.hash moment session)
    (own : ∀ {entry}, session.inFlight? ticket.hash = some entry → entry.value = ticket.request)
    (response : Response) :
    Decided moment session ticket.request response (Registry.judge session.config
      (session.registry.inFlight.remove ticket.hash session.now).1 response) := by
  have late (dead : moment.now + session.config.cache.lifeSpan ≤ session.now) :
      (session.registry.inFlight.remove ticket.hash session.now).1 = none := by
    refine Cache.remove_of_dead fun {entry} found => ?_
    rw [(h.own found).2, ← h.config]
    exact dead
  have inTime (prompt : InTime moment session) :
      (session.registry.inFlight.remove ticket.hash session.now).1 = some ticket.request := by
    obtain ⟨alive, recent⟩ := prompt
    rw [h.config] at alive recent
    obtain ⟨entry, found⟩ := h.kept alive (by omega)
    rw [← own found]
    refine Cache.remove_of_live found ?_
    rw [(h.own found).2]
    exact alive
  have answer (prompt : InTime moment session) (same : ticket.request.service = response.service)
      (equal : response.version = session.config.protocolVersion) :
      Registry.judge session.config
        (session.registry.inFlight.remove ticket.hash session.now).1 response =
          .ok ⟨response.version, response.service, response.body⟩ := by
    rw [inTime prompt, Registry.judge, if_neg (not_not.mpr same), if_neg (not_not.mpr equal)]
  refine ⟨?_, ?_, ?_, answer, ?_⟩
  · intro dead
    rw [late dead]
    rfl
  · intro prompt differs
    rw [inTime prompt, Registry.judge, if_pos differs]
  · intro prompt same differs
    rw [inTime prompt, Registry.judge, if_neg (not_not.mpr same), if_pos differs]
  · intro longer early recent
    exact answer ⟨by omega, recent⟩

theorem History.told_of_inbound {session : Session} {past : List Action} {action : Action}
    {raw : Bytes} (h : session.History past)
    (handled : (session.after past).inbound? action = some raw)
    (named : (Response.parse raw).hash = some ticket.hash)
    (waits : (session.after past).stage? call = some (.awaiting aim ticket)) :
    (session.after (past ++ [action])).stage? call = some (.told aim ticket
      (Registry.judge (session.after past).config
        ((session.after past).registry.inFlight.remove ticket.hash (session.after past).now).1
        (Response.parse raw))) := by
  obtain ⟨reads, delivers⟩ := Turn.act_of_inbound handled
  have registered := h.pending_iff.mpr ⟨aim, ticket, waits, rfl⟩
  have after_eq : session.after (past ++ [action]) =
      ((start (session.after past)).deliver raw).2.session :=
    (after_concat ..).trans (congrArg Turn.session delivers)
  rcases Turn.deliver_cases h.coherent reads with
    ⟨unknown, -⟩ | ⟨caller, aim', ticket', named', waits', -, restaged⟩
  · cases registered.symm.trans (unknown _ named)
  · have same : ticket'.hash = ticket.hash := Option.some.inj (named'.symm.trans named)
    have registered' := h.pending_iff.mpr ⟨aim', ticket', h.stage?_iff.mpr waits', same⟩
    cases registered.symm.trans registered'
    cases h.coherent.stage_eq (h.stage?_iff.mp waits) waits'
    rw [(h.concat action).stage?_iff, after_eq]
    exact restaged.mem_tasks.mpr (.inr rfl)

/-- The moment at which the waiting call was registered, and what became of others since, decide
what it is told. -/
theorem reply_decided {config : Config} {hashes : HashSource} {past : List Action} {step : Step}
    {raw : Bytes} (fresh : Session.ofConfig config hashes = .ok session)
    (handled : (session.after past).inbound? (.perform step) = some raw)
    (named : (Response.parse raw).hash = some ticket.hash)
    (waits : (session.after past).stage? call = some (.awaiting aim ticket)) :
    (session.after past).config = config ∧
    ∃ moment result, session.RegisteredAt past ticket.hash call moment ∧
      Decided moment (session.after past) ticket.request (Response.parse raw) result ∧
      (session.after (past ++ [.perform step])).stage? call = some (.told aim ticket result) ∧
      ∀ {outcome}, aim.outcome? result = some outcome →
        (call, outcome) ∈ ((session.after past).step step).1.finished := by
  have h := history_of_ofConfig fresh past
  have told := h.told_of_inbound handled named waits
  have receiving : (session.after past).registry.receiving := by
    have reads := (Turn.act_of_inbound handled).1
    rw [Session.reads, Bool.and_eq_true] at reads
    exact reads.2
  have registered : (session.after past).caller? ticket.hash = some call :=
    h.pending_iff.mpr ⟨aim, ticket, waits, rfl⟩
  obtain ⟨moment, entered, retains⟩ := exists_registeredAt fresh receiving registered
  refine ⟨h.config.trans (ofConfig_eq_ok fresh).1, moment, _, entered, ?_, told, ?_⟩
  · exact retains.decided (fun found =>
      h.coherent.inFlight_fits List.not_mem_nil (h.stage?_iff.mp waits) found) _
  · intro outcome ends
    rw [after_concat] at told
    exact mem_finished_step told ends

def crowdedConfig : Config where
  requestTimeout := 40
  cache := { capacity := 2, lifeSpan := 50 }

def firstHash : Hash :=
  ⟨[1, 2, 3, 4, 5, 6, 7, 8], rfl⟩

def overlappingCalls : List Action :=
  [.perform (.call ⟨9, 2, []⟩), .perform (.jump 10), .perform (.call ⟨9, 3, []⟩)]

theorem reply_decided_overlapping : ∃ session,
    Session.ofConfig crowdedConfig (.scripted [firstHash] ⟨[8, 7, 6, 5, 4, 3, 2, 1], rfl⟩) =
      .ok session ∧
    (session.after overlappingCalls).stage? 0 =
      some (.awaiting .reply ⟨firstHash, ⟨9, 2, 0⟩⟩) ∧
    (0, .reply ⟨1, 9, [7]⟩) ∈
      ((session.after overlappingCalls).step (.reply 0 [7] none none)).1.finished := by
  have fresh : Session.ofConfig crowdedConfig
      (.scripted [firstHash] ⟨[8, 7, 6, 5, 4, 3, 2, 1], rfl⟩) = .ok _ := rfl
  obtain ⟨-, moment, result, entered, decided, -, finishes⟩ :=
    @reply_decided _ 0 .reply ⟨firstHash, ⟨9, 2, 0⟩⟩ _ _ overlappingCalls (.reply 0 [7] none none)
      (Response.encode ⟨1, 9, some firstHash, [7]⟩) fresh rfl rfl rfl
  obtain ⟨_, before, _, -, -, entering, -⟩ := entered
  have answer := decided.answer ⟨?_, ?_⟩ rfl rfl
  · exact ⟨_, fresh, rfl, finishes (by rw [answer]; rfl)⟩
  · change 10 < moment.now + 50
    omega
  · change 2 - moment.registrations < 2
    omega

end Session

end NodeProtocol.Client
