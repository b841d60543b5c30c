import Mathlib.Logic.Relation
import NodeProtocol.Proofs.Client.Coherent

namespace NodeProtocol.Client

open Relation (ReflTransGen)

def Aim.outcome? (aim : Aim) : Except CallError Reply → Option Outcome
  | .error cause => some (.failed cause)
  | .ok answer =>
    match aim with
    | reply => some (.reply answer)
    | tokens types =>
      match Abi.decodeArguments types answer.body with
      | .ok results => some (.tokens results)
      | .error cause => some (.failed (.abi cause))
    | terminalStatus _ _ => (terminalStatus? answer.body).map .status

def Aim.Concludes : Aim → Reply → Outcome → Prop
  | reply, result, outcome => outcome = .reply result
  | tokens types, result, outcome =>
    ∃ tokens, Abi.decodeArguments types result.body = .ok tokens ∧ outcome = .tokens tokens
  | terminalStatus _ _, result, outcome =>
    ∃ status, terminalStatus? result.body = some status ∧ outcome = .status status

namespace Aim

variable {aim : Aim} {reply : Reply} {result : Except CallError Reply} {outcome : Outcome}

theorem Concludes.isAnswer (h : aim.Concludes reply outcome) : outcome.isAnswer := by
  cases aim with
  | reply =>
      cases h
      rfl
  | tokens types =>
      obtain ⟨tokens, -, rfl⟩ := h
      rfl
  | terminalStatus query pollsLeft =>
      obtain ⟨status, -, rfl⟩ := h
      rfl

theorem outcome?_ok (h : aim.outcome? (.ok reply) = some outcome) :
    aim.Concludes reply outcome ∨ ∃ cause, outcome = .failed (.abi cause) := by
  cases aim with
  | reply =>
      cases h
      exact .inl rfl
  | tokens types =>
      rw [outcome?] at h
      cases decoded : Abi.decodeArguments types reply.body with
      | ok tokens =>
          rw [decoded] at h
          cases h
          exact .inl ⟨tokens, decoded, rfl⟩
      | error cause =>
          rw [decoded] at h
          cases h
          exact .inr ⟨cause, rfl⟩
  | terminalStatus query pollsLeft =>
      obtain ⟨status, terminal, rfl⟩ := Option.map_eq_some_iff.mp h
      exact .inl ⟨status, terminal, rfl⟩

theorem concludes_of_outcome? (h : aim.outcome? result = some outcome) (answer : outcome.isAnswer) :
    ∃ reply, result = .ok reply ∧ aim.Concludes reply outcome := by
  cases result with
  | error cause =>
      cases h
      cases answer
  | ok reply =>
      rcases outcome?_ok h with concludes | ⟨cause, rfl⟩
      · exact ⟨reply, rfl, concludes⟩
      · cases answer

theorem outcome?_eq_dropped (h : aim.outcome? result = some (.failed .channelClosed)) :
    result = .error .channelClosed := by
  cases result with
  | error cause =>
      cases h
      rfl
  | ok reply =>
      rcases outcome?_ok h with concludes | ⟨cause, equal⟩
      · cases concludes.isAnswer
      · cases equal

end Aim

def Aim.Polls (aim : Aim) (query : Query) : Prop :=
  ∀ polled pollsLeft, aim = .terminalStatus polled pollsLeft → polled = query

def Stage.Polls (stage : Stage) (query : Query) : Prop :=
  (∃ pollsLeft since, stage = .pausing query pollsLeft since) ∨
    ∃ pollsLeft ticket reply, stage = .told (.terminalStatus query pollsLeft) ticket (.ok reply)

/-- What is known of an action: the calls that were over before, the service that a new call is
for, and the errors that a call can be told. -/
structure Scope where
  earlier : List CallId
  asks : CallId → UInt8 → Prop
  tells : CallError → Prop

namespace Turn

inductive MayAsk (scope : Scope) (turn : Turn) (call : CallId) (query : Query) (aim : Aim) : Prop
  | fresh (asks : scope.asks call query.service) (polls : aim.Polls query)
  | again {stage : Stage} (next : ∃ n, aim = .terminalStatus query n)
      (stands : ⟨call, stage⟩ ∈ turn.session.tasks) (polls : stage.Polls query)

inductive Move (scope : Scope) : List CallId × Turn → List CallId × Turn → Prop
  | same {loose before after} (h : SameCalls after before) :
      Move scope (loose, before) (loose, after)
  | begin {turn} : Move scope ([], turn) ([], turn.begin.2)
  | finish {loose loose' turn call outcome} (live : turn.Live scope.earlier call)
      (unregistered : turn.Unregistered call)
      (others : ∀ other ≠ call, other ∈ loose' ↔ other ∈ loose)
      (prompted : outcome.isPrompted → ∃ aim ticket result, aim.outcome? result = some outcome ∧
        ⟨call, .told aim ticket result⟩ ∈ turn.session.tasks) :
      Move scope (loose, turn) (loose', turn.finish call outcome)
  | accept {before after call aim query ticket} (live : before.Live scope.earlier call)
      (unregistered : before.Unregistered call) (accepted : Accepted call query ticket after before)
      (may : MayAsk scope before call query aim) :
      Move scope ([], before) ([], after.await ⟨call, .awaiting aim ticket⟩)
  | pause {turn call stage query pollsLeft since} (live : turn.Live scope.earlier call)
      (unregistered : turn.Unregistered call) (stands : ⟨call, stage⟩ ∈ turn.session.tasks)
      (polls : stage.Polls query) :
      Move scope ([], turn) ([], turn.await ⟨call, .pausing query pollsLeft since⟩)
  | loosen {turn call hash} (found : turn.session.registry.pending.get? hash = some call)
      (now : Nat) :
      Move scope ([], turn) ([call], turn.withRegistry (turn.session.registry.forget hash now).2)
  | tell {loose turn call aim ticket error}
      (waits : ⟨call, .awaiting aim ticket⟩ ∈ turn.session.tasks) (tells : scope.tells error) :
      Move scope (call :: loose, turn)
        (loose, turn.await ⟨call, .told aim ticket (.error error)⟩)
  | tighten {loose turn call}
      (idle : ∀ aim ticket, turn.session.stage? call ≠ some (.awaiting aim ticket)) :
      Move scope (call :: loose, turn) (loose, turn)
  | stop {turn} : Move scope ([], turn)
      (turn.session.registry.stop.1, turn.withRegistry turn.session.registry.stop.2)

abbrev Moves (scope : Scope) := ReflTransGen (Move scope)

variable {scope : Scope} {loose loose' : List CallId} {turn after before : Turn} {call : CallId}

theorem Coherent.tell {earlier : List CallId} {aim : Aim} {ticket : Ticket}
    (h : Coherent earlier (call :: loose) turn)
    (waits : ⟨call, .awaiting aim ticket⟩ ∈ turn.session.tasks) (result : Except CallError Reply) :
    Coherent earlier loose (turn.await ⟨call, .told aim ticket result⟩) := by
  refine h.idle (h.task_live _ waits) (h.unregistered_of_loose List.mem_cons_self) ?_ nofun
  intro other differs
  simp [differs]

theorem Move.coherent (move : Move scope (loose, before) (loose', after))
    (h : Coherent scope.earlier loose before) : Coherent scope.earlier loose' after := by
  cases move with
  | same same => exact h.sameCalls same
  | begin => exact h.begin
  | finish live unregistered others _ => exact h.finish live unregistered others _
  | accept live unregistered accepted => exact h.accept live unregistered accepted
  | pause live unregistered => exact h.idle live unregistered (fun _ _ => Iff.rfl) nofun
  | loosen found now => exact h.loosen found now
  | tell waits => exact h.tell waits _
  | tighten idle => exact h.tighten idle
  | stop => exact h.stop

theorem Moves.preserves {P : List CallId → Turn → Prop}
    (move : ∀ {loose loose' before after}, Move scope (loose, before) (loose', after) →
      P loose before → P loose' after)
    (moves : Moves scope (loose, before) (loose', after)) (h : P loose before) :
    P loose' after := by
  have along {first last : List CallId × Turn} (moves : Moves scope first last)
      (h : P first.1 first.2) : P last.1 last.2 := by
    induction moves with
    | refl => exact h
    | tail _ last ih => exact move last ih
  exact along moves h

theorem Moves.coherent (moves : Moves scope (loose, before) (loose', after))
    (h : Coherent scope.earlier loose before) : Coherent scope.earlier loose' after :=
  moves.preserves Move.coherent h

/-! ## What calls are told -/

theorem Move.told {aim : Aim} {ticket : Ticket} {result : Except CallError Reply}
    (move : Move scope (loose, before) (loose', after))
    (member : ⟨call, .told aim ticket result⟩ ∈ after.session.tasks) :
    ⟨call, .told aim ticket result⟩ ∈ before.session.tasks ∨
      ∃ error, result = .error error ∧ scope.tells error := by
  cases move with
  | same same => exact .inl (same.tasks ▸ member)
  | finish => exact .inl (mem_finish.mp member).1
  | accept _ _ accepted =>
      rcases mem_await.mp member with ⟨old, -⟩ | equal
      · exact .inl (accepted.tasks ▸ old)
      · cases equal
  | pause =>
      rcases mem_await.mp member with ⟨old, -⟩ | equal
      · exact .inl old
      · cases equal
  | tell _ tells =>
      rcases mem_await.mp member with ⟨old, -⟩ | equal
      · exact .inl old
      · cases equal
        exact .inr ⟨_, rfl, tells⟩
  | begin | loosen | tighten | stop => exact .inl member

theorem Moves.told {aim : Aim} {ticket : Ticket} {result : Except CallError Reply}
    (moves : Moves scope (loose, before) (loose', after))
    (member : ⟨call, .told aim ticket result⟩ ∈ after.session.tasks) :
    ⟨call, .told aim ticket result⟩ ∈ before.session.tasks ∨
      ∃ error, result = .error error ∧ scope.tells error := by
  refine moves.preserves (P := fun _ turn => ⟨call, .told aim ticket result⟩ ∈ turn.session.tasks →
    _ ∨ _) ?_ .inl member
  intro _ _ _ _ move ih member
  rcases move.told member with old | new
  · exact ih old
  · exact .inr new

def Covered (scope : Scope) (turn : Turn) : Prop :=
  ∀ {call aim ticket}, ⟨call, .told aim ticket (.error .channelClosed)⟩ ∈ turn.session.tasks →
    scope.tells .channelClosed

theorem Moves.covered (moves : Moves scope (loose, before) (loose', after))
    (h : Covered scope before) : Covered scope after := by
  intro call aim ticket member
  rcases moves.told member with old | ⟨_, ⟨⟩, tells⟩
  · exact h old
  · exact tells

/-! ## Requests and replies -/

section Request

variable (live : turn.Live scope.earlier call) (unregistered : turn.Unregistered call)

include live unregistered

theorem move_finish {outcome : Outcome}
    (prompted : outcome.isPrompted → ∃ aim ticket result, aim.outcome? result = some outcome ∧
      ⟨call, .told aim ticket result⟩ ∈ turn.session.tasks) :
    Move scope ([], turn) ([], turn.finish call outcome) :=
  .finish live unregistered (fun _ _ => Iff.rfl) prompted

theorem moves_request {aim : Aim} {query : Query} (may : MayAsk scope turn call query aim) :
    Moves scope ([], turn) ([], turn.request call aim query) := by
  rcases request_cases turn call aim query with
    ⟨after, error, same, answered, refused⟩ | ⟨after, ticket, accepted, waits⟩
  · have ends : Move scope ([], after) ([], after.finish call (.failed error)) := by
      refine move_finish (live.sameCalls same) (unregistered.sameCalls same) ?_
      simp [Outcome.isPrompted_failed, answered]
    rw [refused]
    exact .tail (.single (.same same)) ends
  · rw [waits]
    exact .single (.accept live unregistered accepted may)

theorem moves_poll {query : Query} {pollsLeft : Nat}
    (may : ∀ left, MayAsk scope turn call query (.terminalStatus query left)) :
    Moves scope ([], turn) ([], turn.poll call query pollsLeft) := by
  cases pollsLeft with
  | zero => exact .single (move_finish live unregistered nofun)
  | succ pollsLeft => exact moves_request live unregistered (may pollsLeft)

theorem moves_useReply {aim : Aim} {ticket : Ticket} {reply : Reply}
    (stands : ⟨call, .told aim ticket (.ok reply)⟩ ∈ turn.session.tasks) :
    Moves scope ([], turn) ([], turn.useReply call aim reply) := by
  have ends {outcome : Outcome} (finishes : aim.outcome? (.ok reply) = some outcome) :
      Moves scope ([], turn) ([], turn.finish call outcome) :=
    .single (move_finish live unregistered fun _ => ⟨aim, ticket, .ok reply, finishes, stands⟩)
  cases aim with
  | reply => exact ends rfl
  | tokens types =>
      rw [useReply]
      split
      case h_1 tokens decoded => exact ends (by rw [Aim.outcome?, decoded])
      case h_2 cause refused => exact ends (by rw [Aim.outcome?, refused])
  | terminalStatus query pollsLeft =>
      have polls : (Stage.told (.terminalStatus query pollsLeft) ticket (.ok reply)).Polls query :=
        .inr ⟨pollsLeft, ticket, reply, rfl⟩
      rw [useReply]
      split
      case h_1 status terminal => exact ends (by rw [Aim.outcome?, terminal, Option.map_some])
      case h_2 =>
        split
        · exact moves_poll live unregistered fun left => .again ⟨left, rfl⟩ stands polls
        · exact .single (.pause live unregistered stands polls)

end Request

section Tell

variable {error : CallError} (tells : scope.tells error)

include tells

theorem moves_tell (loose : List CallId) (turn : Turn) (call : CallId) :
    Moves scope (call :: loose, turn) (loose, turn.tell call (.error error)) := by
  rw [Turn.tell]
  split
  case h_1 aim ticket waits => exact .single (.tell (Session.mem_of_stage? waits) tells)
  case h_2 idle => exact .single (.tighten idle)

theorem moves_tell_all (calls : List CallId) (turn : Turn) :
    Moves scope (calls, turn)
      ([], calls.foldl (fun turn call => turn.tell call (.error error)) turn) := by
  induction calls generalizing turn with
  | nil => exact .refl
  | cons call calls ih => exact (moves_tell tells calls turn call).trans (ih _)

theorem moves_stopReceiving (turn : Turn) :
    Moves scope ([], turn) ([], turn.stopReceiving error) := by
  rw [stopReceiving]
  split
  · exact .head .stop (moves_tell_all tells _ _)
  · exact .refl

end Tell

/-! ## Giving up -/

theorem mem_tell {task : Task} {other : CallId} {result : Except CallError Reply}
    (differs : task.call ≠ other) (h : task ∈ turn.session.tasks) :
    task ∈ (turn.tell other result).session.tasks := by
  rw [Turn.tell]
  split
  · exact mem_await.mpr (.inl ⟨h, differs⟩)
  · exact h

theorem moves_forget_awaiting {aim : Aim} {ticket : Ticket} (h : Coherent scope.earlier [] turn)
    (waits : ⟨call, .awaiting aim ticket⟩ ∈ turn.session.tasks)
    {outcome : Outcome} (silent : outcome.isPrompted = false) :
    Moves scope ([], turn) ([], (turn.forget call ticket).finish call outcome) := by
  have found := h.pending_iff.mpr ⟨List.not_mem_nil, aim, ticket, waits, rfl⟩
  have forgotten := forget_eq fun other owner => Option.some.inj (owner.symm.trans found)
  have taken : Move scope ([], turn) ([call], turn.forget call ticket) := by
    rw [forgotten]
    exact .loosen found _
  have loose := taken.coherent h
  have still : ⟨call, .awaiting aim ticket⟩ ∈ (turn.forget call ticket).session.tasks := by
    rw [forgotten]
    exact waits
  have unregistered := loose.unregistered_of_loose (List.mem_singleton_self call)
  have ends : Move scope ([call], turn.forget call ticket)
      ([], (turn.forget call ticket).finish call outcome) := by
    refine .finish (loose.task_live _ still) unregistered ?_ (by simp [silent])
    intro other differs
    simp [differs]
  exact .tail (.single taken) ends

theorem moves_forget_stray (tells : scope.tells .channelClosed) {task : Task} (ticket : Ticket)
    (stands : task ∈ turn.session.tasks) (unregistered : turn.Unregistered task.call) :
    Moves scope ([], turn) ([], turn.forget task.call ticket) ∧
      task ∈ (turn.forget task.call ticket).session.tasks := by
  cases owner : turn.session.registry.pending.get? ticket.hash with
  | none =>
      rw [forget_eq (by simp [owner])]
      exact ⟨.single (.same (sameCalls_unregister owner)), stands⟩
  | some other =>
      -- The hash is that of another call by now, which is left without an answer.
      have differs : other ≠ task.call := by
        intro equal
        exact unregistered ticket.hash (equal ▸ owner)
      rw [forget_of_other owner differs]
      have taken : Move scope ([], turn) ([other], turn.withRegistry
          (turn.session.registry.forget ticket.hash turn.session.now).2) :=
        .loosen owner _
      exact ⟨.head taken (moves_tell tells [] _ other),
        mem_tell differs.symm stands⟩

theorem moves_forget_told {aim : Aim} {ticket : Ticket} {result : Except CallError Reply}
    (h : Coherent scope.earlier [] turn)
    (tells : scope.tells .channelClosed)
    (stands : ⟨call, .told aim ticket result⟩ ∈ turn.session.tasks)
    {outcome : Outcome} (prompted : outcome.isPrompted → aim.outcome? result = some outcome) :
    Moves scope ([], turn) ([], (turn.forget call ticket).finish call outcome) := by
  obtain ⟨moves, still⟩ := moves_forget_stray tells ticket stands
    (h.unregistered_of_idle stands nofun)
  have coherent := moves.coherent h
  exact .tail moves (move_finish (coherent.task_live _ still)
    (coherent.unregistered_of_idle still nofun) fun isPrompted =>
      ⟨aim, ticket, result, prompted isPrompted, still⟩)

theorem moves_wake (h : Coherent scope.earlier [] turn) (covered : Covered scope turn)
    (call : CallId) : Moves scope ([], turn) ([], turn.wake call) := by
  rw [wake]
  split
  case h_1 aim ticket result stage =>
    have stands := Session.mem_of_stage? stage
    have live := h.task_live _ stands
    have unregistered := h.unregistered_of_idle stands nofun
    split
    case h_1 reply => exact moves_useReply live unregistered stands
    case h_2 => exact moves_forget_told h (covered stands) stands fun _ => rfl
    case h_3 error answered =>
      exact .single (move_finish live unregistered fun _ => ⟨aim, ticket, _, rfl, stands⟩)
  case h_2 => exact .refl

theorem moves_abort (h : Coherent scope.earlier [] turn)
    (covered : ∀ {call aim ticket result},
      ⟨call, .told aim ticket result⟩ ∈ turn.session.tasks → scope.tells .channelClosed)
    (call : CallId) : Moves scope ([], turn) ([], turn.abort call) := by
  rw [abort]
  split
  case h_1 aim ticket waits => exact moves_forget_awaiting h (Session.mem_of_stage? waits) rfl
  case h_2 aim ticket result told =>
    have stands := Session.mem_of_stage? told
    exact moves_forget_told h (covered stands) stands nofun
  case h_3 query pollsLeft since pauses =>
    have stands := Session.mem_of_stage? pauses
    exact .single (move_finish (h.task_live _ stands) (h.unregistered_of_idle stands nofun) nofun)
  case h_4 => exact .refl

/-! ## Time -/

theorem moves_expire (h : Coherent scope.earlier [] turn) (covered : Covered scope turn)
    (call : CallId) : Moves scope ([], turn) ([], turn.expire call) := by
  rw [expire]
  split
  case h_1 aim ticket waits => exact moves_forget_awaiting h (Session.mem_of_stage? waits) rfl
  case h_2 => exact moves_wake h covered call
  case h_3 query pollsLeft since pauses =>
    have stands := Session.mem_of_stage? pauses
    exact moves_poll (h.task_live _ stands) (h.unregistered_of_idle stands nofun) fun left =>
      .again ⟨left, rfl⟩ stands (.inl ⟨pollsLeft, since, rfl⟩)
  case h_4 => exact .refl

theorem moves_fireDue (h : Coherent scope.earlier [] turn) (covered : Covered scope turn) :
    Moves scope ([], turn) ([], turn.fireDue) := by
  rw [fireDue]
  induction turn.session.dueCalls generalizing turn with
  | nil => exact .refl
  | cons call calls ih =>
      have first := moves_expire h covered call
      exact first.trans (ih (first.coherent h) (first.covered covered))

theorem moves_setClock (h : Coherent scope.earlier [] turn) (covered : Covered scope turn)
    (now : Nat)
    {inFlight : Cache Hash RequestInfo}
    (shrinks : ∀ {hash entry}, inFlight.entries.get? hash = some entry →
      turn.session.registry.inFlight.entries.get? hash = some entry) :
    Moves scope ([], turn) ([], (turn.setClock now inFlight).fireDue) := by
  have same : SameCalls (turn.setClock now inFlight) turn :=
    ⟨rfl, rfl, rfl, rfl, fun _ => rfl, shrinks, List.Subset.refl _, fun aligned =>
      aligned.lose shrinks⟩
  exact .head (.same same) (moves_fireDue (h.sameCalls same) covered)

theorem moves_passAll (h : Coherent scope.earlier [] turn) (covered : Covered scope turn)
    (remaining : Nat) : Moves scope ([], turn) ([], turn.passAll remaining) := by
  induction turn, remaining using Turn.passAll.induct with
  | case1 turn => rw [passAll, if_pos rfl]
  | case2 turn remaining more duration ih =>
      rw [passAll, if_neg more]
      have first : Moves scope ([], turn) ([], turn.pass duration) :=
        moves_setClock h covered _ Cache.get?_of_sweepThrough
      exact first.trans (ih (first.coherent h) (first.covered covered))

/-! ## New calls -/

section Begin

variable (h : Coherent scope.earlier [] turn)

include h

theorem moves_finish_begin {outcome : Outcome} (silent : outcome.isPrompted = false)
    (same : SameCalls after turn.begin.2) :
    Moves scope ([], turn) ([], after.finish turn.begin.1 outcome) := by
  have ends : Move scope ([], after) ([], after.finish turn.begin.1 outcome) :=
    move_finish (h.live_begin.sameCalls same) (h.unregistered_begin.sameCalls same)
      (by simp [silent])
  exact .tail (.tail (.single .begin) (.same same)) ends

theorem moves_request_begin {aim : Aim} {query : Query} (polls : aim.Polls query)
    (asks : scope.asks turn.begin.1 query.service) :
    Moves scope ([], turn) ([], turn.begin.2.request turn.begin.1 aim query) :=
  .head .begin (moves_request h.live_begin h.unregistered_begin (.fresh asks polls))

theorem moves_callAbi {service function : UInt8} {signature : Abi.Signature}
    {args : List Abi.Token} {returns : List Abi.Ty} (asks : scope.asks turn.begin.1 service) :
    Moves scope ([], turn) ([], turn.callAbi service function signature args returns) := by
  rw [callAbi]
  cases signature.encodeCall args with
  | ok payload => exact moves_request_begin h nofun asks
  | error cause => exact moves_finish_begin h rfl (.refl _)

theorem moves_notify (query : Query) : Moves scope ([], turn) ([], turn.notify query) := by
  obtain ⟨after, outcome, same, silent, ends⟩ := notify_cases turn query
  rw [ends]
  exact moves_finish_begin h silent same

theorem moves_pollStatus {query : Query} (asks : scope.asks turn.begin.1 query.service)
    (maxPolls : Nat) : Moves scope ([], turn) ([], turn.pollStatus query maxPolls) := by
  refine .head .begin (moves_poll h.live_begin h.unregistered_begin ?_)
  intro left
  refine .fresh asks ?_
  rintro polled pollsLeft ⟨⟩
  rfl

end Begin

end Turn

end NodeProtocol.Client
