import NodeProtocol.Proofs.Client.Deadlines
import NodeProtocol.Proofs.Client.Fates
import NodeProtocol.Proofs.Client.Verdict

/-!
# The beats of a poll

A poll sends a request, runs on with its result, pauses and sends the next one.

* `Reports body status` says which bodies end a poll, `Settles` which results do, and how.
* `Poll.requests` and `Poll.results` are the log of a poll: when it sent its requests, and when it
  ran on with which results.
* `Poll.Phase` is the invariant: what the stage of the poll says about its log. `Poll.Lawful` is
  what one beat may do, and `Poll.Phase.step` proves both for the next beat (`Poll.Advances`).
-/

namespace NodeProtocol

theorem TxStatus.code_le (status : TxStatus) : status.code ≤ 105 := by
  cases status <;> decide

namespace Client

open Turn (Coherent)

/-! ## Status words -/

structure Reports (body : Bytes) (status : TxStatus) : Prop where
  long : 16 ≤ body.length
  code : Bytes.toNat (body.take 16) = status.code
  terminal : status.isTerminal

theorem statusCode_eq (body : Bytes) :
    statusCode body = min (if 16 ≤ body.length then Bytes.toNat (body.take 16) else 0) 65535 := by
  have decoded : (Abi.Kind.uint 16).decode body 0 =
      .ok (((Word.read? body 0 16).map fun word => Abi.Token.uint (Word.toUnsigned word)).getD
        (.uint 0)) := rfl
  rw [statusCode, decoded]
  by_cases long : 16 ≤ body.length
  · have word : Word.read? body 0 16 = some (body.take 16) := if_pos long
    have value : Word.toUnsigned (body.take 16) = Bytes.toNat (body.take 16) :=
      congrArg _ (Bytes.takeLast_of_length_le (List.length_take_le 16 body))
    rw [if_pos long, word, Option.map_some, Option.getD_some, value]
  · have missing : Word.read? body 0 16 = none := if_neg long
    rw [if_neg long, missing]
    rfl

theorem terminalStatus?_eq_some {body : Bytes} {status : TxStatus} :
    terminalStatus? body = some status ↔ Reports body status := by
  rw [terminalStatus?, Option.filter_eq_some_iff, TxStatus.ofCode?_eq_some_iff, statusCode_eq]
  have small := status.code_le
  constructor
  · rintro ⟨code, terminal⟩
    by_cases long : 16 ≤ body.length
    · rw [if_pos long] at code
      exact ⟨long, by omega, terminal⟩
    · rw [if_neg long] at code
      cases status <;> simp [TxStatus.code, TxStatus.isTerminal] at code terminal
  · rintro ⟨long, code, terminal⟩
    rw [if_pos long, code]
    exact ⟨by omega, terminal⟩

theorem terminalStatus?_eq_none {body : Bytes} :
    terminalStatus? body = none ↔ ∀ status, ¬ Reports body status := by
  simp only [← terminalStatus?_eq_some, Option.eq_none_iff_forall_ne_some]

/-! ## The log of a poll -/

inductive Settles : Except CallError Reply → Outcome → Prop
  | status {reply : Reply} {status : TxStatus} (reports : Reports reply.body status) :
    Settles (.ok reply) (.status status)
  | failed {error : CallError} : Settles (.error error) (.failed error)

def Unsettled (result : Except CallError Reply) : Prop :=
  ∃ reply, result = .ok reply ∧ ∀ status, ¬ Reports reply.body status

theorem settles_iff {query : Query} {pollsLeft : Nat} {result : Except CallError Reply}
    {outcome : Outcome} :
    Settles result outcome ↔
      (Aim.terminalStatus query pollsLeft).outcome? result = some outcome := by
  constructor
  · rintro (reports | _)
    · rw [Aim.outcome?, terminalStatus?_eq_some.mpr reports, Option.map_some]
    · rfl
  · intro ends
    cases result with
    | error error =>
        cases ends
        exact .failed
    | ok reply =>
        obtain ⟨status, found, rfl⟩ := Option.map_eq_some_iff.mp ends
        exact .status (terminalStatus?_eq_some.mp found)

theorem Settles.unique {result : Except CallError Reply} {outcome outcome' : Outcome}
    (h : Settles result outcome) (h' : Settles result outcome') : outcome = outcome' := by
  cases h with
  | failed =>
      cases h'
      rfl
  | status reports =>
      cases h' with
      | status reports' =>
          have same := (terminalStatus?_eq_some.mpr reports).symm.trans
            (terminalStatus?_eq_some.mpr reports')
          rw [Option.some.inj same]

theorem Unsettled.not_settles {result : Except CallError Reply} {outcome : Outcome}
    (h : Unsettled result) : ¬ Settles result outcome := by
  obtain ⟨reply, rfl, unreported⟩ := h
  rintro (reports | _)
  exact unreported _ reports

theorem unsettled_of_unknown {reply : Reply}
    (unknown : reply.body.length < 16 ∨ 65535 < Bytes.toNat (reply.body.take 16) ∨
      TxStatus.ofCode? (Bytes.toNat (reply.body.take 16)) = none) : Unsettled (.ok reply) := by
  refine ⟨reply, rfl, ?_⟩
  rintro status ⟨long, code, -⟩
  have small := status.code_le
  rcases unknown with short | large | unknown
  · omega
  · omega
  · rw [TxStatus.ofCode?_eq_some_iff.mpr code.symm] at unknown
    cases unknown

theorem settles_or_unsettled (result : Except CallError Reply) :
    (∃ outcome, Settles result outcome) ∨ Unsettled result := by
  cases result with
  | error error => exact .inl ⟨_, .failed⟩
  | ok reply =>
      cases found : terminalStatus? reply.body with
      | some status => exact .inl ⟨_, .status (terminalStatus?_eq_some.mp found)⟩
      | none => exact .inr ⟨reply, rfl, terminalStatus?_eq_none.mp found⟩

def Turn.Refuses (turn : Turn) (query : Query) (error : CallError) : Prop :=
  (turn.session.started, .failed error) ∈ (turn.call query).finished

namespace Beat

def asks (beat : Beat) (call : CallId) : Bool :=
  !(beat.before.session.stage? call).any Stage.isAwaiting &&
    (beat.after.session.stage? call).any Stage.isAwaiting

/-- The result of the request for whose reply the call had waited, if it runs on with it in the
beat. A wait that ends although nothing was told has run out. -/
def result? (beat : Beat) (call : CallId) : Option (Except CallError Reply) :=
  if beat.action.aborts call then none
  else
    match beat.before.session.stage? call with
    | some (.told _ _ result) =>
      if (beat.after.session.stage? call).any Stage.isTold then none else some result
    | some (.awaiting ..) =>
      if (beat.after.session.stage? call).isNone then some (.error .timeout) else none
    | _ => none

section

variable {beat : Beat} {earlier : List CallId} {call : CallId} {aim : Aim} {ticket : Ticket}
  {result : Except CallError Reply}

theorem result?_of_wake (before : Coherent earlier [] beat.before)
    (kept : beat.action.aborts call = false)
    (told : beat.before.session.stage? call = some (.told aim ticket result))
    (wakes : beat.after = beat.before.wake call) : beat.result? call = some result := by
  have ran : (beat.after.session.stage? call).any Stage.isTold = false := by
    rw [wakes]
    cases stands : (beat.before.wake call).session.stage? call with
    | none => rfl
    | some stage => exact Turn.ranOn_wake before call stage (Session.mem_of_stage? stands)
  simp [result?, kept, told, ran]

theorem Origin.result? (origin : beat.Origin) (before : Coherent earlier [] beat.before)
    (wakes : beat.action = .wake call)
    (told : beat.before.session.stage? call = some (.told aim ticket result)) :
    beat.result? call = some result := by
  have kept : beat.action.aborts call = false := by rw [wakes]; rfl
  cases origin with
  | act untimed opens acts =>
      refine result?_of_wake before kept told (acts.trans ?_)
      rw [wakes]
      rfl
  | tick timed | expire timed =>
      obtain ⟨duration, same | same⟩ := timed <;> cases wakes.symm.trans same

end

end Beat

structure Poll where
  call : CallId
  query : Query
  maxPolls : Nat

namespace Poll

def action (poll : Poll) : Action :=
  .perform (.pollStatus poll.query poll.maxPolls)

def requests (poll : Poll) (beats : List Beat) : List Nat :=
  (beats.filter (·.asks poll.call)).map (·.after.session.now)

def results (poll : Poll) (beats : List Beat) : List (Nat × Except CallError Reply) :=
  beats.filterMap fun beat => (beat.result? poll.call).map (beat.after.session.now, ·)

def AllUnsettled (poll : Poll) (beats : List Beat) : Prop :=
  ∀ entry ∈ poll.results beats, Unsettled entry.2

def Paused (poll : Poll) (interval : Nat) (beats : List Beat) (now : Nat) : Prop :=
  ∀ {heard result}, (poll.results beats).getLast? = some (heard, result) →
    heard + sleepLength interval ≤ now

/-- The poll goes on: so many requests have no result yet, and so many more may follow. -/
structure Going (poll : Poll) (past : List Beat) (waiting pollsLeft : Nat) : Prop where
  unsettled : poll.AllUnsettled past
  asked : (poll.requests past).length = (poll.results past).length + waiting
  left : (poll.requests past).length + pollsLeft = poll.maxPolls

inductive Phase (poll : Poll) (past : List Beat) (session : Session) : Prop
  | asking {stage : Stage} {pollsLeft : Nat} {ticket : Ticket}
      (stands : session.stage? poll.call = some stage)
      (waits : stage = .awaiting (.terminalStatus poll.query pollsLeft) ticket ∨
        ∃ result, stage = .told (.terminalStatus poll.query pollsLeft) ticket result)
      (going : poll.Going past 1 pollsLeft)
  | pausing {pollsLeft since : Nat} {result : Except CallError Reply}
      (stands : session.stage? poll.call = some (.pausing poll.query pollsLeft since))
      (going : poll.Going past 0 pollsLeft)
      (last : (poll.results past).getLast? = some (since, result))
  | ended (gone : session.Gone poll.call)
      (finished : ∃ beat ∈ past, ∃ outcome, beat.Finishes poll.call outcome)
      (answered : (poll.results past).length ≤ (poll.requests past).length)
      (single : (poll.requests past).length ≤ (poll.results past).length + 1)
      (few : (poll.requests past).length ≤ poll.maxPolls)

structure Ready (poll : Poll) (interval : Nat) (past : List Beat) (beat : Beat) : Prop where
  unsettled : poll.AllUnsettled (past ++ [beat])
  answered : (poll.requests past).length = (poll.results (past ++ [beat])).length
  paused : poll.Paused interval (past ++ [beat]) beat.after.session.now

/-- Why a poll ends in the beat: with the result of its request, because it cannot send the next one
or has none left to send, or because it is abandoned. -/
inductive Ending (poll : Poll) (interval : Nat) (past : List Beat) (beat : Beat) : Outcome → Prop
  | settled {result : Except CallError Reply} {outcome : Outcome}
      (unsettled : poll.AllUnsettled past) (few : (poll.results past).length < poll.maxPolls)
      (hears : beat.result? poll.call = some result) (settles : Settles result outcome) :
    Ending poll interval past beat outcome
  | refused {error : CallError} (ready : poll.Ready interval past beat)
      (few : (poll.requests past).length < poll.maxPolls)
      (refuses : beat.before.Refuses poll.query error) :
    Ending poll interval past beat (.failed error)
  | exhausted (ready : poll.Ready interval past beat)
      (all : (poll.requests past).length = poll.maxPolls) :
    Ending poll interval past beat (.failed .timeout)
  | aborted (aborts : beat.action = .perform (.abort poll.call)) :
    Ending poll interval past beat .aborted

structure Lawful (poll : Poll) (interval : Nat) (past : List Beat) (beat : Beat) : Prop where
  asks : beat.asks poll.call → poll.Ready interval past beat ∧
    (∀ error, ¬ beat.before.Refuses poll.query error) ∧
    ∃ hash, beat.after.sent = beat.before.sent ++
      [poll.query.frame beat.before.session.config.protocolVersion (some hash)]
  settles : ∀ {result outcome}, beat.result? poll.call = some result →
    Settles result outcome → beat.Finishes poll.call outcome
  ends : ∀ {outcome}, beat.Finishes poll.call outcome →
    poll.Ending interval past beat outcome ∧ beat.asks poll.call = false

structure Advances (poll : Poll) (interval : Nat) (past : List Beat) (beat : Beat) : Prop where
  phase : poll.Phase (past ++ [beat]) beat.after.session
  lawful : poll.Lawful interval past beat

section

variable {poll : Poll} {past : List Beat} {beat : Beat}

theorem requests_of_asks (asks : beat.asks poll.call) :
    poll.requests (past ++ [beat]) = poll.requests past ++ [beat.after.session.now] := by
  rw [requests, List.filter_append, List.map_append, List.filter_singleton, asks]
  rfl

theorem requests_of_not_asks (quiet : beat.asks poll.call = false) :
    poll.requests (past ++ [beat]) = poll.requests past := by
  rw [requests, List.filter_append, List.map_append, List.filter_singleton, quiet]
  exact List.append_nil _

theorem results_of_some {result : Except CallError Reply}
    (hears : beat.result? poll.call = some result) :
    poll.results (past ++ [beat]) = poll.results past ++ [(beat.after.session.now, result)] := by
  rw [results, List.filterMap_append, List.filterMap_cons, hears]
  rfl

theorem results_of_none (deaf : beat.result? poll.call = none) :
    poll.results (past ++ [beat]) = poll.results past := by
  rw [results, List.filterMap_append, List.filterMap_cons, deaf]
  exact List.append_nil _

theorem Going.quiet {waiting pollsLeft : Nat} (h : poll.Going past waiting pollsLeft)
    (quiet : beat.asks poll.call = false) (deaf : beat.result? poll.call = none) :
    poll.Going (past ++ [beat]) waiting pollsLeft where
  unsettled := by
    rw [AllUnsettled, results_of_none deaf]
    exact h.unsettled
  asked := by
    rw [requests_of_not_asks quiet, results_of_none deaf]
    exact h.asked
  left := by
    rw [requests_of_not_asks quiet]
    exact h.left

end

end Poll

/-! ## What happens to a call that polls -/

theorem Action.aborts_iff {action : Action} {call : CallId} :
    action.aborts call ↔ action = .perform (.abort call) := by
  constructor
  · intro aborts
    unfold Action.aborts at aborts
    split at aborts
    · rw [of_decide_eq_true aborts]
    · cases aborts
  · rintro rfl
    exact decide_eq_true rfl

theorem Turn.finished_abort {turn : Turn} {call : CallId} {stage : Stage}
    (stands : turn.session.stage? call = some stage) :
    (call, .aborted) ∈ (turn.abort call).finished := by
  rw [abort, stands]
  cases stage <;> exact Ranking.mem_insert.mpr (.inl rfl)

namespace Turn.Coherent

variable {turn : Turn} {earlier : List CallId} {call : CallId} {outcome outcome' : Outcome}

theorem gone (h : Coherent earlier [] turn) (ends : (call, outcome) ∈ turn.finished) :
    turn.session.Gone call := by
  have ended : call ∈ turn.ended earlier :=
    List.mem_append_right _ (List.mem_map_of_mem (f := (·.1)) ends)
  refine ⟨h.ended_lt call ended, ?_⟩
  cases stands : turn.session.stage? call with
  | none => rfl
  | some stage => exact absurd ended (h.task_live _ (Session.mem_of_stage? stands)).2

theorem outcome_eq (h : Coherent earlier [] turn) (ends : (call, outcome) ∈ turn.finished)
    (ends' : (call, outcome') ∈ turn.finished) : outcome = outcome' := by
  have nodup := (List.nodup_append.mp h.nodup_ended).2.1
  exact congrArg Prod.snd (List.inj_on_of_nodup_map nodup ends ends' rfl)

theorem unfinished {stage : Stage} (h : Coherent earlier [] turn)
    (stands : turn.session.stage? call = some stage) : (call, outcome) ∉ turn.finished := by
  intro ends
  cases stands.symm.trans (h.gone ends).2

end Turn.Coherent

/-! ## Attempts -/

namespace Turn

variable {turn : Turn} {call : CallId} {query : Query}

theorem refuses_of_refusal? {error : CallError} (refusal : turn.refusal? query = some error) :
    turn.Refuses query error := by
  have refused := refusal?_begin turn query ▸ refusal
  have call_eq : turn.call query = turn.begin.2.request turn.begin.1 .reply query := rfl
  rw [Refuses, call_eq]
  rcases request_result turn.begin.2 turn.begin.1 .reply query with
    ⟨after, error', refusal', -, -, ends⟩ | ⟨_, _, none, -⟩
  · cases refused.symm.trans refusal'
    rw [ends]
    exact Ranking.mem_insert.mpr (.inl rfl)
  · cases refused.symm.trans none

theorem Coherent.not_refuses {earlier : List CallId} {error : CallError}
    (h : Coherent earlier [] turn) (accepted : turn.refusal? query = none) :
    ¬ turn.Refuses query error := by
  intro refused
  have free := (refusal?_begin turn query).trans accepted
  have call_eq : turn.call query = turn.begin.2.request turn.begin.1 .reply query := rfl
  rw [Refuses, call_eq] at refused
  rcases request_result turn.begin.2 turn.begin.1 .reply query with
    ⟨_, _, refusal, -⟩ | ⟨after, ticket, -, accepted, -, -, waits⟩
  · cases free.symm.trans refusal
  · rw [waits] at refused
    have old : (turn.session.started, .failed error) ∈ turn.finished :=
      accepted.finished ▸ refused
    exact Nat.lt_irrefl _ (h.gone old).1

inductive Attempt (turn : Turn) (call : CallId) (query : Query) (after : Turn) : Nat → Prop
  | exhausted (ends : (call, .failed .timeout) ∈ after.finished) : Attempt turn call query after 0
  | refused {pollsLeft : Nat} {error : CallError} (refusal : turn.refusal? query = some error)
      (ends : (call, .failed error) ∈ after.finished) :
    Attempt turn call query after (pollsLeft + 1)
  | asks {pollsLeft : Nat} {ticket : Ticket} (accepted : turn.refusal? query = none)
      (waits : after.session.stage? call =
        some (.awaiting (.terminalStatus query pollsLeft) ticket))
      (sends : after.sent = turn.sent ++
        [query.frame turn.session.config.protocolVersion (some ticket.hash)]) :
    Attempt turn call query after (pollsLeft + 1)

theorem Attempt.of_begin {after : Turn} {pollsLeft : Nat}
    (attempt : Attempt turn.begin.2 call query after pollsLeft) :
    Attempt turn call query after pollsLeft := by
  cases attempt with
  | exhausted ends => exact .exhausted ends
  | refused refusal ends => exact .refused (refusal?_begin turn query ▸ refusal) ends
  | asks accepted waits sends =>
      exact .asks ((refusal?_begin turn query).symm.trans accepted) waits sends

theorem attempt_poll (turn : Turn) (call : CallId) (query : Query) (pollsLeft : Nat) :
    Attempt turn call query (turn.poll call query pollsLeft) pollsLeft := by
  cases pollsLeft with
  | zero => exact .exhausted (Ranking.mem_insert.mpr (.inl rfl))
  | succ pollsLeft =>
      have requests : turn.poll call query (pollsLeft + 1) =
          turn.request call (.terminalStatus query pollsLeft) query := rfl
      rw [requests]
      rcases request_result turn call (.terminalStatus query pollsLeft) query with
        ⟨after, error, refusal, -, -, ends⟩ | ⟨after, ticket, accepted, -, sends, -, waits⟩
      · rw [ends]
        exact .refused refusal (Ranking.mem_insert.mpr (.inl rfl))
      · rw [waits]
        exact .asks accepted (stage?_await_self ..) sends

end Turn

/-! ## One beat -/

namespace Poll

variable {poll : Poll} {interval : Nat} {past : List Beat} {beat : Beat} {earlier : List CallId}
  {outcome : Outcome}

theorem lawful_of_quiet (quiet : beat.asks poll.call = false)
    (deaf : beat.result? poll.call = none)
    (unfinished : ∀ outcome, ¬ beat.Finishes poll.call outcome) :
    poll.Lawful interval past beat where
  asks asks := by cases quiet.symm.trans asks
  settles hears := by cases deaf.symm.trans hears
  ends finishes := absurd finishes (unfinished _)

theorem step_of_end (coherent : Coherent earlier [] beat.after)
    (new : ∀ outcome, (poll.call, outcome) ∉ beat.before.finished)
    (ends : (poll.call, outcome) ∈ beat.after.finished)
    (ending : poll.Ending interval past beat outcome)
    (settles : ∀ {result outcome'}, beat.result? poll.call = some result →
      Settles result outcome' → outcome' = outcome)
    (answered : (poll.results (past ++ [beat])).length ≤ (poll.requests past).length)
    (single : (poll.requests past).length ≤ (poll.results (past ++ [beat])).length + 1)
    (few : (poll.requests past).length ≤ poll.maxPolls) : poll.Advances interval past beat := by
  have gone := coherent.gone ends
  have quiet : beat.asks poll.call = false := by
    rw [Beat.asks, gone.2]
    exact Bool.and_false _
  have finishes : beat.Finishes poll.call outcome := ⟨ends, new outcome⟩
  rw [← requests_of_not_asks quiet] at answered single few
  refine ⟨.ended gone ⟨beat, by simp, outcome, finishes⟩ answered single few, ?_, ?_, ?_⟩
  · intro asks
    cases quiet.symm.trans asks
  · intro result outcome' hears ends'
    rw [settles hears ends']
    exact finishes
  · intro outcome' finishes'
    rw [coherent.outcome_eq finishes'.1 ends]
    exact ⟨ending, quiet⟩

theorem step_of_settled {pollsLeft : Nat} {result : Except CallError Reply}
    (coherent : Coherent earlier [] beat.after)
    (new : ∀ outcome, (poll.call, outcome) ∉ beat.before.finished)
    (ends : (poll.call, outcome) ∈ beat.after.finished)
    (hears : beat.result? poll.call = some result) (settles : Settles result outcome)
    (going : poll.Going past 1 pollsLeft) : poll.Advances interval past beat := by
  have asked := going.asked
  have left := going.left
  have heard : (poll.results (past ++ [beat])).length = (poll.requests past).length := by
    rw [results_of_some hears, asked, List.length_append]
    rfl
  refine step_of_end coherent new ends (.settled going.unsettled (by omega) hears settles) ?_
    (Nat.le_of_eq heard) (by omega) (by omega)
  intro result' outcome' hears' settles'
  cases hears.symm.trans hears'
  exact settles'.unique settles

theorem step_of_abort {stage : Stage} {waiting pollsLeft : Nat}
    (before : Coherent earlier [] beat.before) (after : Coherent earlier [] beat.after)
    (stands : beat.before.session.stage? poll.call = some stage)
    (action : beat.action.aborts poll.call) (aborts : beat.after = beat.before.abort poll.call)
    (going : poll.Going past waiting pollsLeft) (single : waiting ≤ 1) :
    poll.Advances interval past beat := by
  have deaf : beat.result? poll.call = none := if_pos action
  have ends : (poll.call, .aborted) ∈ beat.after.finished := by
    rw [aborts]
    exact Turn.finished_abort stands
  have asked := going.asked
  have left := going.left
  rw [← results_of_none deaf] at asked
  refine step_of_end after (fun _ => before.unfinished stands) ends
    (.aborted (Action.aborts_iff.mp action)) ?_ (by omega) (by omega) (by omega)
  intro result outcome hears
  cases deaf.symm.trans hears

theorem step_of_attempt {pollsLeft : Nat} (before : Coherent earlier [] beat.before)
    (after : Coherent earlier [] beat.after)
    (new : ∀ outcome, (poll.call, outcome) ∉ beat.before.finished)
    (idle : (beat.before.session.stage? poll.call).any Stage.isAwaiting = false)
    (ready : poll.Ready interval past beat)
    (left : (poll.requests past).length + pollsLeft = poll.maxPolls)
    (attempt : Turn.Attempt beat.before poll.call poll.query beat.after pollsLeft) :
    poll.Advances interval past beat := by
  have unsettled {result : Except CallError Reply} {outcome : Outcome}
      (hears : beat.result? poll.call = some result) : ¬ Settles result outcome := by
    refine (ready.unsettled (beat.after.session.now, result) ?_).not_settles
    rw [results_of_some hears]
    exact List.mem_append_right _ (List.mem_singleton_self _)
  have answered := ready.answered
  have closes {outcome : Outcome} (ends : (poll.call, outcome) ∈ beat.after.finished)
      (ending : poll.Ending interval past beat outcome) : poll.Advances interval past beat :=
    step_of_end after new ends ending (fun hears settles => absurd settles (unsettled hears))
      (by omega) (by omega) (by omega)
  cases attempt with
  | exhausted ends => exact closes ends (.exhausted ready left)
  | refused refusal ends =>
      exact closes ends (.refused ready (by omega) (Turn.refuses_of_refusal? refusal))
  | @asks pollsLeft ticket accepted waits sends =>
      have asks : beat.asks poll.call := by
        rw [Beat.asks, idle, waits]
        rfl
      have unfinished {outcome : Outcome} : ¬ beat.Finishes poll.call outcome :=
        fun finishes => after.unfinished waits finishes.1
      refine ⟨.asking waits (.inl rfl) ⟨ready.unsettled, ?_, ?_⟩, ?_, ?_, ?_⟩
      · rw [requests_of_asks asks, List.length_append, answered]
        rfl
      · rw [requests_of_asks asks, List.length_append, List.length_singleton]
        omega
      · exact fun _ => ⟨ready, fun _ => before.not_refuses accepted, ticket.hash, sends⟩
      · exact fun hears settles => absurd settles (unsettled hears)
      · exact fun finishes => absurd finishes unfinished

theorem step_of_begin (before : Coherent earlier [] beat.before)
    (after : Coherent earlier [] beat.after)
    (new : ∀ outcome, (poll.call, outcome) ∉ beat.before.finished)
    (idle : beat.before.session.stage? poll.call = none)
    (attempt : Turn.Attempt beat.before poll.call poll.query beat.after poll.maxPolls) :
    poll.Advances interval [] beat := by
  have deaf : beat.result? poll.call = none := by simp [Beat.result?, idle]
  have nothing : poll.results ([] ++ [beat]) = [] := results_of_none deaf
  have left : (poll.requests []).length + poll.maxPolls = poll.maxPolls := Nat.zero_add _
  refine step_of_attempt before after new (by rw [idle]; rfl) ⟨?_, ?_, ?_⟩ left attempt
  · rw [AllUnsettled, nothing]
    exact List.forall_mem_nil _
  · rw [nothing]
    rfl
  · intro heard result last
    rw [nothing] at last
    cases last

theorem step_of_pause {pollsLeft : Nat} {reply : Reply} (after : Coherent earlier [] beat.after)
    (hears : beat.result? poll.call = some (.ok reply))
    (stands : beat.after.session.stage? poll.call =
      some (.pausing poll.query pollsLeft beat.after.session.now))
    (unsettled : poll.AllUnsettled (past ++ [beat]))
    (answered : (poll.requests past).length = (poll.results (past ++ [beat])).length)
    (left : (poll.requests past).length + pollsLeft = poll.maxPolls) :
    poll.Advances interval past beat := by
  have quiet : beat.asks poll.call = false := by simp [Beat.asks, stands, Stage.isAwaiting]
  have last : (poll.results (past ++ [beat])).getLast? =
      some (beat.after.session.now, .ok reply) := by
    rw [results_of_some hears, List.getLast?_concat]
  have heard : (beat.after.session.now, .ok reply) ∈ poll.results (past ++ [beat]) :=
    List.mem_of_getLast? last
  rw [← requests_of_not_asks quiet] at answered left
  refine ⟨.pausing stands ⟨unsettled, answered, left⟩ last, ?_, ?_, ?_⟩
  · intro asks
    cases quiet.symm.trans asks
  · intro result outcome hears' settles
    cases hears.symm.trans hears'
    exact absurd settles (unsettled _ heard).not_settles
  · exact fun finishes => absurd finishes.1 (after.unfinished stands)

theorem step_of_told {pollsLeft : Nat} {ticket : Ticket} {result : Except CallError Reply}
    (before : Coherent earlier [] beat.before) (after : Coherent earlier [] beat.after)
    (interval_eq : beat.before.session.config.pollInterval = interval)
    (told : beat.before.session.stage? poll.call =
      some (.told (.terminalStatus poll.query pollsLeft) ticket result))
    (kept : beat.action.aborts poll.call = false)
    (wakes : beat.after = beat.before.wake poll.call) (going : poll.Going past 1 pollsLeft) :
    poll.Advances interval past beat := by
  have new (outcome : Outcome) : (poll.call, outcome) ∉ beat.before.finished :=
    before.unfinished told
  have hears : beat.result? poll.call = some result := Beat.result?_of_wake before kept told wakes
  rcases settles_or_unsettled result with ⟨outcome, settles⟩ | still
  · have ends : (poll.call, outcome) ∈ beat.after.finished := by
      rw [wakes]
      exact Turn.finished_wake told (settles_iff.mp settles)
    exact step_of_settled after new ends hears settles going
  · have unsettled : poll.AllUnsettled (past ++ [beat]) := by
      rw [AllUnsettled, results_of_some hears, List.forall_mem_append, List.forall_mem_singleton]
      exact ⟨going.unsettled, still⟩
    have answered : (poll.requests past).length = (poll.results (past ++ [beat])).length := by
      rw [results_of_some hears, going.asked, List.length_append]
      rfl
    obtain ⟨reply, rfl, unreported⟩ := still
    have uses : beat.after =
        beat.before.useReply poll.call (.terminalStatus poll.query pollsLeft) reply := by
      rw [wakes, Turn.wake, told]
    rw [Turn.useReply, terminalStatus?_eq_none.mpr unreported, interval_eq] at uses
    dsimp only at uses
    split at uses
    case isTrue none =>
      have attempt := Turn.attempt_poll beat.before poll.call poll.query pollsLeft
      rw [← uses] at attempt
      have paused : poll.Paused interval (past ++ [beat]) beat.after.session.now := by
        intro time result last
        rw [results_of_some hears, List.getLast?_concat] at last
        cases last
        rw [none]
        exact Nat.le_refl _
      exact step_of_attempt before after new (by rw [told]; rfl) ⟨unsettled, answered, paused⟩
        going.left attempt
    case isFalse pauses =>
      have stands : beat.after.session.stage? poll.call =
          some (.pausing poll.query pollsLeft beat.after.session.now) := by
        rw [uses]
        exact Turn.stage?_await_self ..
      exact step_of_pause after hears stands unsettled answered going.left

theorem step_of_asking {stage : Stage} {pollsLeft : Nat} {ticket : Ticket}
    (before : Coherent earlier [] beat.before) (after : Coherent earlier [] beat.after)
    (origin : beat.Origin) (interval_eq : beat.before.session.config.pollInterval = interval)
    (stands : beat.before.session.stage? poll.call = some stage)
    (waits : stage = .awaiting (.terminalStatus poll.query pollsLeft) ticket ∨
      ∃ result, stage = .told (.terminalStatus poll.query pollsLeft) ticket result)
    (going : poll.Going past 1 pollsLeft) : poll.Advances interval past beat := by
  have told (kept : beat.action.aborts poll.call = false) {result : Except CallError Reply}
      (told : stage = .told (.terminalStatus poll.query pollsLeft) ticket result)
      (wakes : beat.after = beat.before.wake poll.call) : poll.Advances interval past beat :=
    step_of_told before after interval_eq (told ▸ stands) kept wakes going
  cases origin.fate (before.task_live _ (Session.mem_of_stage? stands)).1 with
  | standsBy nudged unfinished =>
      have still {stage' : Stage} (next : beat.after.session.stage? poll.call = some stage')
          (waits : stage' = .awaiting (.terminalStatus poll.query pollsLeft) ticket ∨
            ∃ result, stage' = .told (.terminalStatus poll.query pollsLeft) ticket result)
          (quiet : beat.asks poll.call = false) (deaf : beat.result? poll.call = none) :
          poll.Advances interval past beat :=
        ⟨.asking next waits (going.quiet quiet deaf), lawful_of_quiet quiet deaf unfinished⟩
      rw [stands] at nudged
      generalize next : beat.after.session.stage? poll.call = stage' at nudged
      rcases waits with rfl | ⟨result, rfl⟩
      · have quiet : beat.asks poll.call = false := by simp [Beat.asks, stands, Stage.isAwaiting]
        cases nudged with
        | same => exact still next (.inl rfl) quiet (by simp [Beat.result?, stands, next])
        | told result =>
            exact still next (.inr ⟨result, rfl⟩) quiet (by simp [Beat.result?, stands, next])
      · have next := next.trans nudged.eq_of_told
        exact still next (.inr ⟨result, rfl⟩) (by simp [Beat.asks, next, Stage.isAwaiting])
          (by simp [Beat.result?, stands, next, Stage.isTold])
  | aborted _ action aborts =>
      exact step_of_abort before after stands action aborts going (Nat.le_refl 1)
  | wakes told' kept wakes =>
      cases stands.symm.trans told'
      rcases waits with waits | ⟨result, waits⟩
      · cases waits
      · exact told kept waits wakes
  | expires stands' due kept expires =>
      rw [Turn.expire, stands] at expires
      rcases waits with rfl | ⟨result, rfl⟩
      · have ends : (poll.call, .failed .timeout) ∈ beat.after.finished := by
          rw [expires]
          exact Ranking.mem_insert.mpr (.inl rfl)
        have hears : beat.result? poll.call = some (.error .timeout) := by
          simp [Beat.result?, kept, stands, (after.gone ends).2]
        exact step_of_settled after (fun _ => before.unfinished stands) ends hears .failed going
      · exact told kept rfl expires

theorem step_of_pausing {pollsLeft since : Nat} {result : Except CallError Reply}
    (before : Coherent earlier [] beat.before) (after : Coherent earlier [] beat.after)
    (origin : beat.Origin) (interval_eq : beat.before.session.config.pollInterval = interval)
    (stands : beat.before.session.stage? poll.call = some (.pausing poll.query pollsLeft since))
    (going : poll.Going past 0 pollsLeft)
    (last : (poll.results past).getLast? = some (since, result)) :
    poll.Advances interval past beat := by
  have deaf : beat.result? poll.call = none := by simp [Beat.result?, stands]
  rw [← results_of_none deaf] at last
  cases origin.fate (before.task_live _ (Session.mem_of_stage? stands)).1 with
  | standsBy nudged unfinished =>
      rw [stands] at nudged
      generalize next : beat.after.session.stage? poll.call = stage' at nudged
      cases nudged
      have quiet : beat.asks poll.call = false := by simp [Beat.asks, next, Stage.isAwaiting]
      exact ⟨.pausing next (going.quiet quiet deaf) last, lawful_of_quiet quiet deaf unfinished⟩
  | aborted _ action aborts =>
      exact step_of_abort before after stands action aborts going (Nat.zero_le 1)
  | wakes told => cases stands.symm.trans told
  | expires stands' due kept expires =>
      cases stands.symm.trans stands'
      have expires : beat.after = beat.before.poll poll.call poll.query pollsLeft := by
        rw [expires, Turn.expire, stands]
      have now : beat.after.session.now = beat.before.session.now := by
        rw [expires]
        exact (Turn.deed_poll ..).now
      have attempt := Turn.attempt_poll beat.before poll.call poll.query pollsLeft
      rw [← expires] at attempt
      refine step_of_attempt before after (fun _ => before.unfinished stands)
        (by rw [stands]; rfl) ⟨?_, ?_, ?_⟩ going.left attempt
      · rw [AllUnsettled, results_of_none deaf]
        exact going.unsettled
      · rw [results_of_none deaf]
        exact going.asked
      · intro time result' last'
        cases last.symm.trans last'
        rw [now, ← interval_eq]
        exact due

theorem step_of_gone (origin : beat.Origin) (gone : beat.before.session.Gone poll.call) :
    beat.after.session.Gone poll.call ∧ beat.asks poll.call = false ∧
      beat.result? poll.call = none ∧ ∀ outcome, ¬ beat.Finishes poll.call outcome := by
  obtain ⟨gone', unfinished⟩ := origin.gone gone
  refine ⟨gone', ?_, ?_, unfinished⟩
  · simp [Beat.asks, gone'.2]
  · simp [Beat.result?, gone.2]

theorem Phase.step (h : poll.Phase past beat.before.session) (sound : beat.Sound)
    (origin : beat.Origin)
    (interval_eq : beat.before.session.config.pollInterval = interval) :
    poll.Advances interval past beat := by
  obtain ⟨earlier, before, after⟩ := sound.coherent
  cases h with
  | asking stands waits going =>
      exact step_of_asking before after origin interval_eq stands waits going
  | pausing stands going last =>
      exact step_of_pausing before after origin interval_eq stands going last
  | ended gone finished answered single few =>
      -- A poll that is over sends nothing and hears nothing, so that its log stays as it is.
      obtain ⟨gone, quiet, deaf, unfinished⟩ := step_of_gone origin gone
      obtain ⟨ending, member, finishes⟩ := finished
      rw [← results_of_none deaf, ← requests_of_not_asks quiet] at answered single
      rw [← requests_of_not_asks quiet] at few
      exact ⟨.ended gone ⟨ending, List.mem_append_left _ member, finishes⟩ answered single few,
        lawful_of_quiet quiet deaf unfinished⟩

end Poll

end Client

end NodeProtocol
