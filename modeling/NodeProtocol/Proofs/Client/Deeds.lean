import NodeProtocol.Proofs.Client.Calm

namespace NodeProtocol.Client

open Cache

theorem Registry.register_error {registry : Registry} {call : CallId} {request : RequestInfo}
    {error : CallError} (h : (registry.register call request).1 = .error error) :
    error = .closed ∨ error = .hashExhausted := by
  rw [register] at h
  split at h
  case isTrue =>
    cases h
    exact .inl rfl
  case isFalse isOpen =>
    dsimp only at h
    split at h
    case h_1 =>
      cases h
      exact .inr rfl
    case h_2 => simp [put, isOpen] at h

namespace Session

def OutOfPolls (session : Session) (call : CallId) : Prop :=
  ∃ query, (∃ since, session.stage? call = some (.pausing query 0 since)) ∨
    ∃ ticket reply, session.stage? call = some (.told (.terminalStatus query 0) ticket (.ok reply))

end Session

namespace Turn

variable {turn before between after : Turn} {call : CallId} {excuse : Prop} {outcome : Outcome}

/-! ## Deeds -/

def Asks (before after : Turn) (ticket : Ticket) : Prop :=
  ∃ query : Query, ticket.request = ⟨query.service, query.function, before.session.now⟩ ∧
    after.sent = before.sent ++
      [query.frame before.session.config.protocolVersion (some ticket.hash)]

structure Deed (excuse : Prop) (call : CallId) (before after : Turn) : Prop where
  now : after.session.now = before.session.now
  config : after.session.config = before.session.config
  receiving : after.session.registry.receiving = before.session.registry.receiving
  awaiting : ∀ {other aim ticket}, ⟨other, .awaiting aim ticket⟩ ∈ after.session.tasks →
    ⟨other, .awaiting aim ticket⟩ ∈ before.session.tasks ∨
    other = call ∧ Asks before after ticket ∧ before.session.config.requestTimeout ≠ 0
  finished : ∀ {other outcome}, (other, outcome) ∈ after.finished →
    (other, outcome) ∈ before.finished ∨
    other = call ∧ (outcome = .failed .timeout → excuse ∨
      ∃ ticket, Asks before after ticket ∧ before.session.config.requestTimeout = 0 ∧
        after.session.Free ticket.hash)
  barred : before.session.Shut → Barred before after

theorem Deed.mono {excuse' : Prop} (h : Deed excuse call before after) (weaker : excuse → excuse') :
    Deed excuse' call before after where
  now := h.now
  config := h.config
  receiving := h.receiving
  awaiting := h.awaiting
  finished member := (h.finished member).imp_right fun ⟨own, timeout⟩ =>
    ⟨own, fun equal => (timeout equal).imp_left weaker⟩
  barred := h.barred

namespace Calm

theorem deed (h : Calm before after) : Deed excuse call before after where
  now := h.now
  config := h.config
  receiving := h.receiving
  awaiting member := .inl (h.awaiting member)
  finished member := .inl (h.finished ▸ member)
  barred := h.barred

theorem finish (h : Calm before after) (excused : outcome = .failed .timeout → excuse) :
    Deed excuse call before (after.finish call outcome) where
  now := h.now
  config := h.config
  receiving := h.receiving
  awaiting member := .inl (h.awaiting (mem_finish.mp member).1)
  finished := by
    intro other outcome' member
    rcases Ranking.mem_insert.mp member with equal | old
    · cases equal
      exact .inr ⟨rfl, fun equal => .inl (excused equal)⟩
    · exact .inl (h.finished ▸ old)
  barred shut := (h.barred shut).trans (.of_eq (h.barred shut).shut rfl rfl)

end Calm

structure Sends (ticket : Ticket) (before after : Turn) : Prop where
  now : after.session.now = before.session.now
  config : after.session.config = before.session.config
  receiving : after.session.registry.receiving = before.session.registry.receiving
  finished : after.finished = before.finished
  awaiting : ∀ {call aim ticket}, ⟨call, .awaiting aim ticket⟩ ∈ after.session.tasks →
    ⟨call, .awaiting aim ticket⟩ ∈ before.session.tasks
  asks : Asks before after ticket
  isOpen : ¬ before.session.Shut

namespace Sends

variable {ticket : Ticket}

theorem calm (h : Sends ticket before between) (calm : Calm between after) :
    Sends ticket before after where
  now := calm.now.trans h.now
  config := calm.config.trans h.config
  receiving := calm.receiving.trans h.receiving
  finished := calm.finished.trans h.finished
  awaiting member := h.awaiting (calm.awaiting member)
  asks := by
    obtain ⟨query, request, sent⟩ := h.asks
    exact ⟨query, request, calm.sent.trans sent⟩
  isOpen := h.isOpen

theorem await (h : Sends ticket before after) (aim : Aim)
    (patient : before.session.config.requestTimeout ≠ 0) :
    Deed excuse call before (after.await ⟨call, .awaiting aim ticket⟩) where
  now := h.now
  config := h.config
  receiving := h.receiving
  awaiting := by
    intro other aim' ticket' member
    rcases mem_await.mp member with ⟨old, -⟩ | equal
    · exact .inl (h.awaiting old)
    · cases equal
      exact .inr ⟨rfl, h.asks, patient⟩
  finished member := .inl (h.finished ▸ member)
  barred shut := absurd shut h.isOpen

theorem timeOut (h : Sends ticket before after)
    (hasty : before.session.config.requestTimeout = 0) (free : after.session.Free ticket.hash) :
    Deed excuse call before (after.finish call (.failed .timeout)) where
  now := h.now
  config := h.config
  receiving := h.receiving
  awaiting member := .inl (h.awaiting (mem_finish.mp member).1)
  finished := by
    intro other outcome member
    rcases Ranking.mem_insert.mp member with equal | old
    · cases equal
      exact .inr ⟨rfl, fun _ => .inr ⟨ticket, h.asks, hasty, free_finish free call _⟩⟩
    · exact .inl (h.finished ▸ old)
  barred shut := absurd shut h.isOpen

end Sends

theorem request_of_closed (closed : turn.session.registry.inFlight.closed) (aim : Aim)
    (query : Query) : turn.request call aim query = turn.finish call (.failed .closed) := by
  rw [request, Registry.register, if_pos closed]
  rfl

theorem deed_request (turn : Turn) (call : CallId) (aim : Aim) (query : Query) :
    Deed False call turn (turn.request call aim query) := by
  by_cases closed : turn.session.registry.inFlight.closed
  · rw [request_of_closed closed]
    exact (Calm.refl turn).finish (by simp)
  have drawn := turn.session.registry.register_cases call
    ⟨query.service, query.function, turn.session.now⟩
  rw [request]
  rcases drawn with ⟨error, hashes, refused, -⟩ | ⟨hash, hashes, -, -, registered⟩
  · have drew : Calm turn (turn.withRegistry { turn.session.registry with hashes }) :=
      .of_open closed rfl rfl
    rw [refused]
    refine drew.finish ?_
    rintro ⟨⟩
    simpa using Registry.register_error (congrArg Prod.fst refused)
  · have entered : Calm turn (turn.withRegistry { turn.session.registry with
        hashes
        inFlight := (turn.session.registry.inFlight.put hash
          ⟨query.service, query.function, turn.session.now⟩ turn.session.now).2
        pending := turn.session.registry.pending.insert hash call }) :=
      .of_open closed rfl rfl
    rw [registered]
    dsimp only
    rcases calm_transmit _ (query.frame turn.session.config.protocolVersion (some hash)) with
      ⟨after, cause, failed, calm⟩ | ⟨after, sent, calm⟩
    · rw [failed]
      exact ((entered.trans calm).trans (calm_forget ..)).finish (by simp)
    · have calm := entered.trans calm
      rw [sent]
      dsimp only
      generalize same : { after with sent := _ } = last
      have sends : Sends ⟨hash, ⟨query.service, query.function, turn.session.now⟩⟩ turn last := by
        rw [← same]
        exact ⟨calm.now, calm.config, calm.receiving, calm.finished, calm.awaiting,
          ⟨query, rfl, rfl⟩, fun shut => closed shut.closed⟩
      split
      case isTrue hasty => exact (sends.calm (calm_forget ..)).timeOut hasty (free_forget ..)
      case isFalse patient => exact sends.await aim patient

theorem deed_poll (turn : Turn) (call : CallId) (query : Query) (pollsLeft : Nat) :
    Deed (pollsLeft = 0) call turn (turn.poll call query pollsLeft) := by
  cases pollsLeft with
  | zero => exact (Calm.refl turn).finish fun _ => rfl
  | succ pollsLeft => exact (deed_request turn call _ query).mono False.elim

theorem deed_useReply (turn : Turn) (call : CallId) (aim : Aim) (reply : Reply) :
    Deed (∃ query, aim = .terminalStatus query 0) call turn (turn.useReply call aim reply) := by
  cases aim with
  | reply => exact (Calm.refl turn).finish (by simp)
  | tokens types =>
      rw [useReply]
      split <;> exact (Calm.refl turn).finish (by simp)
  | terminalStatus query pollsLeft =>
      rw [useReply]
      split
      · exact (Calm.refl turn).finish (by simp)
      · split
        · refine (deed_poll turn call query pollsLeft).mono ?_
          rintro rfl
          exact ⟨query, rfl⟩
        · have paused : Calm turn
              (turn.await ⟨call, .pausing query pollsLeft turn.session.now⟩) :=
            calm_await turn call (by simp)
          exact paused.deed

theorem deed_wake (turn : Turn) (call : CallId) :
    Deed (turn.session.OutOfPolls call ∨ ∃ aim ticket,
        turn.session.stage? call = some (.told aim ticket (.error .timeout)))
      call turn (turn.wake call) := by
  rw [wake]
  split
  case h_1 aim ticket result stage =>
    split
    case h_1 reply =>
      refine (deed_useReply turn call aim reply).mono ?_
      rintro ⟨query, rfl⟩
      exact .inl ⟨query, .inr ⟨ticket, reply, stage⟩⟩
    case h_2 => exact (calm_forget turn call ticket).finish (by simp)
    case h_3 error _ =>
      refine (Calm.refl turn).finish ?_
      rintro ⟨⟩
      exact .inr ⟨aim, ticket, stage⟩
  case h_2 => exact (Calm.refl turn).deed

theorem deed_expire (turn : Turn) (call : CallId) :
    Deed ((turn.session.OutOfPolls call ∨ ∃ aim ticket,
          turn.session.stage? call = some (.told aim ticket (.error .timeout))) ∨
        ∃ aim ticket, turn.session.stage? call = some (.awaiting aim ticket) ∧
          (turn.expire call).session.Free ticket.hash)
      call turn (turn.expire call) := by
  rw [expire]
  split
  case h_1 aim ticket waits =>
    exact (calm_forget turn call ticket).finish fun _ =>
      .inr ⟨aim, ticket, waits, free_finish (free_forget turn call ticket) call _⟩
  case h_2 => exact (deed_wake turn call).mono .inl
  case h_3 query pollsLeft since pauses =>
    refine (deed_poll turn call query pollsLeft).mono ?_
    rintro rfl
    exact .inl (.inl ⟨query, .inl ⟨since, pauses⟩⟩)
  case h_4 => exact (Calm.refl turn).deed

theorem deed_abort (turn : Turn) (call : CallId) : Deed False call turn (turn.abort call) := by
  rw [abort]
  split
  · exact (calm_forget ..).finish (by simp)
  · exact (calm_forget ..).finish (by simp)
  · exact (Calm.refl turn).finish (by simp)
  · exact (Calm.refl turn).deed

/-! ## New calls -/

theorem Deed.of_begin (h : Deed excuse call turn.begin.2 after) : Deed excuse call turn after where
  now := h.now
  config := h.config
  receiving := h.receiving
  awaiting := h.awaiting
  finished := h.finished
  barred shut := by
    have began : Barred turn turn.begin.2 := .of_eq shut rfl rfl
    exact began.trans (h.barred began.shut)

theorem deed_call (turn : Turn) (query : Query) :
    Deed False turn.begin.1 turn (turn.call query) :=
  (deed_request turn.begin.2 turn.begin.1 .reply query).of_begin

theorem deed_callAbi (turn : Turn) (service function : UInt8) (signature : Abi.Signature)
    (args : List Abi.Token) (returns : List Abi.Ty) :
    Deed False turn.begin.1 turn (turn.callAbi service function signature args returns) := by
  rw [callAbi]
  cases signature.encodeCall args with
  | ok payload => exact (deed_request turn.begin.2 turn.begin.1 (.tokens returns) _).of_begin
  | error cause =>
      have ended : Deed False turn.begin.1 turn.begin.2
          (turn.begin.2.finish turn.begin.1 (.failed (.abi cause))) :=
        (Calm.refl _).finish (by simp)
      exact ended.of_begin

theorem deed_notify (turn : Turn) (query : Query) :
    Deed False turn.begin.1 turn (turn.notify query) := by
  have hashless := hashless_frame query turn.session.config.protocolVersion
  refine Deed.of_begin ?_
  rw [notify]
  dsimp only
  rcases calm_transmit turn.begin.2
      (query.frame turn.begin.2.session.config.protocolVersion none) with
    ⟨after, cause, failed, calm⟩ | ⟨after, sent, calm⟩
  · rw [failed]
    exact calm.finish (by simp)
  · rw [sent]
    refine ⟨calm.now, calm.config, calm.receiving,
      fun member => .inl (calm.awaiting (mem_finish.mp member).1), ?_, fun shut => ?_⟩
    · intro other outcome member
      rcases Ranking.mem_insert.mp member with equal | old
      · cases equal
        exact .inr ⟨rfl, by simp⟩
      · exact .inl (calm.finished ▸ old)
    · obtain ⟨⟨closed, empty, deaf⟩, hashes, caller, -⟩ := calm.barred shut
      refine ⟨⟨closed, empty, deaf⟩, hashes, caller, fun frame member => ?_⟩
      rcases List.mem_append.mp member with old | new
      · exact .inl old
      · rw [List.mem_singleton.mp new]
        exact .inr hashless

theorem deed_pollStatus (turn : Turn) (query : Query) (maxPolls : Nat) :
    Deed (maxPolls = 0) turn.begin.1 turn (turn.pollStatus query maxPolls) :=
  (deed_poll turn.begin.2 turn.begin.1 query maxPolls).of_begin

theorem Deed.whileHeld (change : Turn → Turn) (h : Deed excuse call turn (change turn)) :
    Deed excuse call turn (turn.whileHeld change) := by
  rw [Turn.whileHeld]
  split
  · exact h
  · exact (Calm.refl turn).deed

/-! ## The end of the pump -/

/-- Nobody begins to wait for a reply or finishes, and if the pump stops, nobody is registered. -/
structure Halts (before after : Turn) : Prop where
  now : after.session.now = before.session.now
  config : after.session.config = before.session.config
  receiving : after.session.registry.receiving = before.session.registry.receiving ∨
    after.session.registry.pending = .empty
  sent : after.sent = before.sent
  finished : after.finished = before.finished
  awaiting : ∀ {call aim ticket}, ⟨call, .awaiting aim ticket⟩ ∈ after.session.tasks →
    ⟨call, .awaiting aim ticket⟩ ∈ before.session.tasks
  barred : before.session.Shut → Barred before after

namespace Halts

theorem of_calm (h : Calm before after) : Halts before after :=
  ⟨h.now, h.config, .inl h.receiving, h.sent, h.finished, h.awaiting, h.barred⟩

theorem after_calm (calm : Calm before between) (h : Halts between after) : Halts before after where
  now := h.now.trans calm.now
  config := h.config.trans calm.config
  receiving := h.receiving.imp_left fun same => same.trans calm.receiving
  sent := h.sent.trans calm.sent
  finished := h.finished.trans calm.finished
  awaiting member := calm.awaiting (h.awaiting member)
  barred shut := (calm.barred shut).trans (h.barred (calm.barred shut).shut)

end Halts

theorem calm_tell_all (calls : List CallId) (turn : Turn) (result : Except CallError Reply) :
    Calm turn (calls.foldl (·.tell · result) turn) := by
  induction calls generalizing turn with
  | nil => exact .refl turn
  | cons call calls ih => exact (calm_tell turn call result).trans (ih _)

theorem registry_tell_all (calls : List CallId) (turn : Turn) (result : Except CallError Reply) :
    (calls.foldl (·.tell · result) turn).session.registry = turn.session.registry := by
  induction calls generalizing turn with
  | nil => rfl
  | cons call calls ih => exact (ih _).trans (registry_tell turn call result)

theorem registry_stopReceiving (receiving : turn.session.registry.receiving) (error : CallError) :
    (turn.stopReceiving error).session.registry = turn.session.registry.stop.2 := by
  rw [stopReceiving, if_pos receiving]
  exact registry_tell_all ..

theorem halts_stopReceiving (turn : Turn) (error : CallError) :
    Halts turn (turn.stopReceiving error) := by
  by_cases receiving : turn.session.registry.receiving
  · have registry := registry_stopReceiving receiving error
    have told := calm_tell_all turn.session.registry.stop.1
      (turn.withRegistry turn.session.registry.stop.2) (.error error)
    have deaf : ¬ turn.session.Shut := by
      intro shut
      cases receiving.symm.trans shut.deaf
    have stopped : turn.stopReceiving error = turn.session.registry.stop.1.foldl
        (·.tell · (.error error)) (turn.withRegistry turn.session.registry.stop.2) := by
      rw [stopReceiving, if_pos receiving]
    rw [stopped] at registry ⊢
    exact ⟨told.now, told.config, .inr (congrArg Registry.pending registry), told.sent,
      told.finished, told.awaiting, fun shut => absurd shut deaf⟩
  · rw [stopReceiving, if_neg receiving]
    exact .of_calm (.refl turn)

theorem calm_clearInFlight (turn : Turn) :
    Calm turn (turn.withRegistry turn.session.registry.clearInFlight) :=
  ⟨rfl, rfl, rfl, rfl, rfl, id, fun shut => .of_shrink shut ⟨rfl, rfl, shut.closed.symm⟩ nofun id⟩

theorem halts_perform {step : Step} {error : CallError} (fails : step.failure? = some error) :
    Halts turn (turn.perform step).2 := by
  cases step with
  | close =>
      change Halts turn (turn.whileHeld (·.close))
      rw [whileHeld]
      split
      · exact .after_calm (calm_clearInFlight turn) (halts_stopReceiving ..)
      · exact .of_calm (.refl turn)
  | disconnectNode => exact .after_calm (calm_modify rfl rfl rfl) (halts_stopReceiving ..)
  | failReceive => exact halts_stopReceiving ..
  | _ => cases fails

end Turn

/-! ## Actions -/

structure Step.Prompt (step : Step) : Prop where
  awake : ∀ duration, step ≠ .sleep duration
  steady : ∀ duration, step ≠ .jump duration
  harmless : step.failure? = none

theorem Step.kinds (step : Step) :
    (∃ duration, step = .sleep duration) ∨ (∃ duration, step = .jump duration) ∨
      (∃ error, step.failure? = some error) ∨ step.Prompt := by
  cases step with
  | sleep duration => exact .inl ⟨duration, rfl⟩
  | jump duration => exact .inr (.inl ⟨duration, rfl⟩)
  | close | disconnectNode | failReceive => exact .inr (.inr (.inl ⟨_, rfl⟩))
  | _ => exact .inr (.inr (.inr ⟨nofun, nofun, rfl⟩))

def Session.PollEnds (session : Session) (action : Action) (call : CallId) : Prop :=
  session.OutOfPolls call ∨
    ∃ query, action = .perform (.pollStatus query 0) ∧ call = session.started

namespace Turn

theorem deed_perform {step : Step} (prompt : step.Prompt) :
    ∃ call, Deed (turn.session.PollEnds (.perform step) call) call turn (turn.perform step).2 := by
  have calm {after : Turn} (calm : Calm turn after) :
      ∃ call, Deed (turn.session.PollEnds (.perform step) call) call turn after :=
    ⟨0, calm.deed⟩
  have deed {call : CallId} (change : Turn → Turn) (deed : Deed False call turn (change turn)) :
      ∃ call, Deed (turn.session.PollEnds (.perform step) call) call turn (turn.whileHeld change) :=
    ⟨call, (deed.whileHeld change).mono False.elim⟩
  cases step with
  | call query => exact deed (·.call query) (deed_call turn query)
  | callAbi service function signature args returns =>
      exact deed (·.callAbi service function signature args returns) (deed_callAbi turn ..)
  | notify query => exact deed (·.notify query) (deed_notify turn query)
  | pollStatus query maxPolls =>
      have polls := (deed_pollStatus turn query maxPolls).whileHeld (·.pollStatus query maxPolls)
      refine ⟨_, polls.mono ?_⟩
      rintro rfl
      exact .inr ⟨query, rfl, rfl⟩
  | abort call => exact ⟨call, (deed_abort turn call).mono False.elim⟩
  | reply index body version service =>
      rw [perform]
      split
      · exact calm (.refl turn)
      · exact calm (calm_deliver ..)
  | deliver raw => exact calm (calm_deliver turn raw)
  | sleep duration => exact absurd rfl (prompt.awake duration)
  | jump duration => exact absurd rfl (prompt.steady duration)
  | releaseClient =>
      have released : Calm turn (turn.modify ({ · with held := false })) := calm_modify rfl rfl rfl
      exact calm released
  | failNextSend error =>
      have faulty : Calm turn (turn.modify fun session =>
          { session with sendFaults := session.sendFaults ++ [error] }) := calm_modify rfl rfl rfl
      exact calm faulty
  | close | disconnectNode | failReceive => cases prompt.harmless

/-! ## Closed clients go on being closed -/

theorem barred_fireDue (shut : turn.session.Shut) : Barred turn turn.fireDue := by
  rw [fireDue]
  induction turn.session.dueCalls generalizing turn with
  | nil => exact .refl shut
  | cons call calls ih =>
      have first := (deed_expire turn call).barred shut
      exact first.trans (ih first.shut)

theorem barred_setClock {now : Nat} {inFlight : Cache Hash RequestInfo}
    (swept : Swept now turn.session.registry.inFlight inFlight) (shut : turn.session.Shut) :
    Barred turn (turn.setClock now inFlight).fireDue := by
  obtain ⟨shut', -⟩ : Barred turn (turn.withRegistry { turn.session.registry with inFlight }) :=
    .of_shrink shut swept.settings swept.old id
  have set : Barred turn (turn.setClock now inFlight) :=
    ⟨⟨shut'.1, shut'.2, shut'.3⟩, rfl, id, fun _ => .inl⟩
  exact set.trans (barred_fireDue set.shut)

theorem barred_passAll (shut : turn.session.Shut) (remaining : Nat) :
    Barred turn (turn.passAll remaining) := by
  induction turn, remaining using Turn.passAll.induct with
  | case1 turn =>
      rw [passAll, if_pos rfl]
      exact .refl shut
  | case2 turn remaining more duration ih =>
      rw [passAll, if_neg more]
      have first : Barred turn (turn.pass duration) := barred_setClock (swept_sweepThrough ..) shut
      exact first.trans (ih first.shut)

theorem barred_act (shut : turn.session.Shut) (action : Action) :
    Barred turn (turn.act action).2 := by
  cases action with
  | wake call => exact (deed_wake turn call).barred shut
  | perform step =>
      rcases step.kinds with ⟨duration, rfl⟩ | ⟨duration, rfl⟩ | ⟨error, fails⟩ | prompt
      · exact barred_passAll shut _
      · exact barred_setClock (swept_sweepAfter ..) shut
      · exact (halts_perform fails).barred shut
      · obtain ⟨call, deed⟩ := @deed_perform turn step prompt
        exact deed.barred shut

end Turn

end NodeProtocol.Client
