import NodeProtocol.Proofs.Client.Moves

namespace NodeProtocol.Client

namespace Stage

def service : Stage → UInt8
  | awaiting _ ticket | told _ ticket _ => ticket.request.service
  | pausing query _ _ => query.service

def Sound : Stage → Prop
  | awaiting (.terminalStatus query _) ticket | told (.terminalStatus query _) ticket _ =>
    ticket.request.service = query.service
  | _ => True

theorem service_of_polls {stage : Stage} {query : Query} (sound : stage.Sound)
    (polls : stage.Polls query) : stage.service = query.service := by
  rcases polls with ⟨pollsLeft, since, rfl⟩ | ⟨pollsLeft, ticket, reply, rfl⟩
  · rfl
  · exact sound

theorem sound_awaiting {aim : Aim} {ticket : Ticket} {query : Query} (polls : aim.Polls query)
    (service : ticket.request.service = query.service) : (awaiting aim ticket).Sound := by
  cases aim with
  | reply | tokens => trivial
  | terminalStatus polled pollsLeft =>
      cases polls polled pollsLeft rfl
      exact service

theorem sound_told {aim : Aim} {ticket : Ticket} (sound : (awaiting aim ticket).Sound)
    (result : Except CallError Reply) : (told aim ticket result).Sound := by
  cases aim with
  | reply | tokens => trivial
  | terminalStatus query pollsLeft => exact sound

end Stage

namespace Turn

structure Accounted (known : CallId → UInt8 → Prop) (session : Session) (turn : Turn) :
    Prop where
  config : turn.session.config = session.config
  asked : ∀ {task}, task ∈ turn.session.tasks →
    known task.call task.stage.service ∧ task.stage.Sound
  sent : ∀ {call aim ticket}, ⟨call, .awaiting aim ticket⟩ ∈ turn.session.tasks →
    ⟨call, .awaiting aim ticket⟩ ∈ session.tasks ∨
    ∃ query : Query, query.service = ticket.request.service ∧
      query.frame session.config.protocolVersion (some ticket.hash) ∈ turn.sent
  told : ∀ {call aim ticket reply},
    ⟨call, .told aim ticket (.ok reply)⟩ ∈ turn.session.tasks →
    ⟨call, .told aim ticket (.ok reply)⟩ ∈ session.tasks
  settled : ∀ {call outcome}, (call, outcome) ∈ turn.finished → outcome.isAnswer →
    ∃ aim ticket reply, ⟨call, .told aim ticket (.ok reply)⟩ ∈ session.tasks ∧
      aim.Concludes reply outcome

namespace Accounted

variable {scope : Scope} {known : CallId → UInt8 → Prop} {session : Session}
  {turn after before : Turn} {call : CallId}

theorem sameCalls (h : Accounted known session before) (same : SameCalls after before) :
    Accounted known session after where
  config := same.config.trans h.config
  asked member := h.asked (same.tasks ▸ member)
  sent := by
    intro call aim ticket member
    rw [same.tasks] at member
    refine (h.sent member).imp_right ?_
    rintro ⟨query, service, frame⟩
    exact ⟨query, service, same.sent frame⟩
  told member := h.told (same.tasks ▸ member)
  settled member := h.settled (same.finished ▸ member)

theorem finish {outcome : Outcome} (h : Accounted known session turn)
    (prompted : outcome.isPrompted → ∃ aim ticket result, aim.outcome? result = some outcome ∧
      ⟨call, .told aim ticket result⟩ ∈ turn.session.tasks) :
    Accounted known session (turn.finish call outcome) where
  config := h.config
  asked member := h.asked (mem_finish.mp member).1
  sent member := h.sent (mem_finish.mp member).1
  told member := h.told (mem_finish.mp member).1
  settled := by
    intro other outcome' member answer
    rcases Ranking.mem_insert.mp member with equal | member
    · cases equal
      obtain ⟨aim, ticket, result, ends, stands⟩ := prompted (Outcome.isPrompted_of_isAnswer answer)
      obtain ⟨reply, rfl, concludes⟩ := Aim.concludes_of_outcome? ends answer
      exact ⟨aim, ticket, reply, h.told stands, concludes⟩
    · exact h.settled member answer

theorem await {stage : Stage} (h : Accounted known session before)
    (tasks : after.session.tasks = before.session.tasks)
    (config : after.session.config = before.session.config)
    (finished : after.finished = before.finished) (kept : before.sent ⊆ after.sent)
    (asks : known call stage.service ∧ stage.Sound)
    (sends : ∀ {aim ticket}, stage = .awaiting aim ticket →
      ∃ query : Query, query.service = ticket.request.service ∧
        query.frame session.config.protocolVersion (some ticket.hash) ∈ after.sent)
    (untold : ∀ {aim ticket reply}, stage ≠ .told aim ticket (.ok reply)) :
    Accounted known session (after.await ⟨call, stage⟩) := by
  have mem_iff {task : Task} : task ∈ (after.await ⟨call, stage⟩).session.tasks ↔
      task ∈ before.session.tasks ∧ task.call ≠ call ∨ task = ⟨call, stage⟩ := by
    rw [mem_await, tasks]
  have finished_eq : (after.await ⟨call, stage⟩).finished = before.finished := finished
  refine ⟨config.trans h.config, ?_, ?_, ?_, ?_⟩
  · intro task member
    rcases mem_iff.mp member with ⟨member, -⟩ | rfl
    · exact h.asked member
    · exact asks
  · intro other aim ticket member
    rcases mem_iff.mp member with ⟨member, -⟩ | equal
    · refine (h.sent member).imp_right ?_
      rintro ⟨query, service, frame⟩
      exact ⟨query, service, kept frame⟩
    · exact .inr (sends (congrArg Task.stage equal).symm)
  · intro other aim ticket reply member
    rcases mem_iff.mp member with ⟨member, -⟩ | equal
    · exact h.told member
    · exact absurd (congrArg Task.stage equal).symm untold
  · rw [finished_eq]
    exact h.settled

theorem accept {aim : Aim} {query : Query} {ticket : Ticket}
    (fits : ∀ {call service}, scope.asks call service → known call service)
    (h : Accounted known session before) (accepted : Accepted call query ticket after before)
    (may : MayAsk scope before call query aim) :
    Accounted known session (after.await ⟨call, .awaiting aim ticket⟩) := by
  have service : ticket.request.service = query.service := congrArg (·.service) accepted.request
  have frame := accepted.frame_sent
  rw [h.config] at frame
  have asks : known call query.service ∧ aim.Polls query := by
    cases may with
    | fresh asks polls => exact ⟨fits asks, polls⟩
    | again next stands polls =>
        obtain ⟨asked, sound⟩ := h.asked stands
        rw [Stage.service_of_polls sound polls] at asked
        refine ⟨asked, ?_⟩
        obtain ⟨left, rfl⟩ := next
        rintro polled pollsLeft ⟨⟩
        rfl
  refine h.await accepted.tasks accepted.config accepted.finished accepted.sent
    ⟨?_, Stage.sound_awaiting asks.2 service⟩ ?_ nofun
  · rw [Stage.service, service]
    exact asks.1
  · rintro _ _ ⟨⟩
    exact ⟨query, service.symm, frame⟩

theorem pause {stage : Stage} {query : Query} {pollsLeft since : Nat}
    (h : Accounted known session turn) (stands : ⟨call, stage⟩ ∈ turn.session.tasks)
    (polls : stage.Polls query) :
    Accounted known session (turn.await ⟨call, .pausing query pollsLeft since⟩) := by
  obtain ⟨asked, sound⟩ := h.asked stands
  rw [Stage.service_of_polls sound polls] at asked
  exact h.await rfl rfl rfl (List.Subset.refl _) ⟨asked, trivial⟩ nofun nofun

theorem tell {aim : Aim} {ticket : Ticket} {error : CallError}
    (h : Accounted known session turn)
    (waits : ⟨call, .awaiting aim ticket⟩ ∈ turn.session.tasks) :
    Accounted known session (turn.await ⟨call, .told aim ticket (.error error)⟩) := by
  obtain ⟨asked, sound⟩ := h.asked waits
  exact h.await rfl rfl rfl (List.Subset.refl _) ⟨asked, Stage.sound_told sound _⟩ nofun nofun

theorem move {loose loose' : List CallId}
    (fits : ∀ {call service}, scope.asks call service → known call service)
    (move : Move scope (loose, before) (loose', after)) (h : Accounted known session before) :
    Accounted known session after := by
  cases move with
  | same same => exact h.sameCalls same
  | finish _ _ _ prompted => exact h.finish prompted
  | accept _ _ accepted may => exact h.accept fits accepted may
  | pause _ _ stands polls => exact h.pause stands polls
  | tell waits => exact h.tell waits
  | tighten => exact h
  | begin | loosen | stop => exact ⟨h.config, h.asked, h.sent, h.told, h.settled⟩

theorem moves {loose loose' : List CallId}
    (fits : ∀ {call service}, scope.asks call service → known call service)
    (moves : Moves scope (loose, before) (loose', after)) (h : Accounted known session before) :
    Accounted known session after :=
  moves.preserves (P := fun _ turn => Accounted known session turn) (Accounted.move fits) h

end Accounted

end Turn

end NodeProtocol.Client
