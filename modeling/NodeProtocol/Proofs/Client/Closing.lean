import NodeProtocol.Proofs.Client.Agreement
import NodeProtocol.Proofs.Client.Deeds
import NodeProtocol.Proofs.Client.Verdict

/-!
# Closing a client

* `stopped_after`: a step that stops the pump fails every call that waits, and nobody is registered
  any more. Only closing the client also clears what is in flight.
* `Final closing later`: what stays true of a client that was closed, whatever happens to it. It
  draws no hash, and a new request is refused at once.
* `closes_after`: closing is final, but it reaches the calls that wait only if the pump still reads.
  A call that began to wait after the pump had stopped is left to its deadline.
-/

namespace NodeProtocol

theorem Table.size_eq_zero {κ ν : Type} [DecidableEq κ] {table : Table κ ν}
    (h : ∀ key, table.get? key = none) : table.size = 0 := by
  rw [Table.size, List.length_eq_zero_iff, List.eq_nil_iff_forall_not_mem]
  intro pair member
  obtain ⟨value, found⟩ := Table.mem_keys.mp (List.mem_map_of_mem (f := (·.1)) member)
  cases (h pair.1).symm.trans found

namespace Client

def Step.leaves : Step → Cache Hash RequestInfo → Cache Hash RequestInfo
  | close, inFlight => inFlight.clear
  | _, inFlight => inFlight

namespace Turn

variable {turn : Turn} {call : CallId} {aim : Aim} {ticket : Ticket} {step : Step}
  {error : CallError}

theorem stage?_tell {other : CallId} (differs : call ≠ other) (result : Except CallError Reply) :
    (turn.tell other result).session.stage? call = turn.session.stage? call := by
  rw [tell]
  split
  · exact stage?_await differs _
  · rfl

theorem told_tell_all {calls : List CallId} {result : Except CallError Reply}
    (member : call ∈ calls) (waits : turn.session.stage? call = some (.awaiting aim ticket)) :
    (calls.foldl (·.tell · result) turn).Told call aim ticket result := by
  have stays {turn : Turn} (told : turn.Told call aim ticket result) (calls : List CallId) :
      (calls.foldl (·.tell · result) turn).Told call aim ticket result := by
    induction calls generalizing turn with
    | nil => exact told
    | cons other calls ih => exact ih (told.tell other result)
  induction calls generalizing turn with
  | nil => cases member
  | cons other calls ih =>
      rw [List.foldl_cons]
      by_cases own : call = other
      · subst own
        refine stays ?_ calls
        rw [tell_of_awaiting waits]
        exact stage?_await_self ..
      · exact ih ((List.mem_cons.mp member).resolve_left own) ((stage?_tell own result).trans waits)

theorem whileHeld_of_held (held : turn.session.held) (change : Turn → Turn) :
    turn.whileHeld change = change turn :=
  if_pos held

theorem perform_of_failure (fails : step.failure? = some error)
    (heard : step = .close → turn.session.held) :
    ∃ before, (turn.perform step).2 = stopReceiving before error ∧
      before.session.tasks = turn.session.tasks ∧
      before.session.registry =
        { turn.session.registry with inFlight := step.leaves turn.session.registry.inFlight } := by
  cases step with
  | close =>
      cases fails
      refine ⟨turn.withRegistry turn.session.registry.clearInFlight, ?_, rfl, rfl⟩
      exact whileHeld_of_held (heard rfl) (·.close)
  | disconnectNode =>
      cases fails
      exact ⟨_, rfl, rfl, rfl⟩
  | failReceive error' =>
      cases fails
      exact ⟨turn, rfl, rfl, rfl⟩
  | _ => cases fails

theorem registry_of_failure (receiving : turn.session.registry.receiving)
    (fails : step.failure? = some error) (heard : step = .close → turn.session.held) :
    (turn.perform step).2.session.registry =
      { turn.session.registry with
        pending := .empty
        inFlight := step.leaves turn.session.registry.inFlight
        receiving := false } := by
  obtain ⟨before, stops, -, registry⟩ := perform_of_failure fails heard
  have reads : before.session.registry.receiving := by
    rw [registry]
    exact receiving
  rw [stops, registry_stopReceiving reads, registry]
  rfl

theorem told_of_failure (receiving : turn.session.registry.receiving)
    (fails : step.failure? = some error) (heard : step = .close → turn.session.held)
    (waits : turn.session.stage? call = some (.awaiting aim ticket))
    (registered : turn.session.caller? ticket.hash = some call) :
    (turn.perform step).2.Told call aim ticket (.error error) := by
  obtain ⟨before, stops, tasks, registry⟩ := perform_of_failure fails heard
  have reads : before.session.registry.receiving := by
    rw [registry]
    exact receiving
  have member : call ∈ before.session.registry.stop.1 := by
    rw [registry]
    exact List.mem_map.mpr ⟨_, Table.mem_of_get? registered, rfl⟩
  rw [stops, stopReceiving, if_pos reads]
  refine told_tell_all member ?_
  change (before.session.tasks.find? (·.call = call)).map (·.stage) = _
  rw [tasks]
  exact waits

end Turn

namespace Session

open Turn (Coherent Barred start)

variable {session closing later : Session} {call : CallId} {earlier : List CallId}

/-- Every call that waits is told what stopped the pump and fails with it. The requests in flight
stay where they are unless the client is closed. -/
theorem stopped_of_coherent {step : Step} {error : CallError}
    (h : Coherent earlier [] (start session)) (receiving : session.registry.receiving)
    (fails : step.failure? = some error) (heard : step = .close → session.held) :
    (∀ call ∈ session.waitingCalls, (call, .failed error) ∈ (session.step step).1.finished) ∧
    (session.act (.perform step)).2.registry =
      { session.registry with
        pending := .empty
        inFlight := step.leaves session.registry.inFlight
        receiving := false } := by
  refine ⟨fun call member => ?_,
    @Turn.registry_of_failure (start session) step error receiving fails heard⟩
  obtain ⟨_, aim, ticket, waits, rfl⟩ := (mem_waitingCalls h).mp member
  have registered := (get?_pending h).mpr ⟨aim, ticket, waits, rfl⟩
  have told := @Turn.told_of_failure (start session) call aim ticket step error receiving fails
    heard waits registered
  exact mem_finished_step told rfl

theorem stopped_after {config : Config} {hashes : HashSource} {step : Step} {error : CallError}
    (fresh : Session.ofConfig config hashes = .ok session) (past : List Action)
    (receiving : (session.after past).registry.receiving)
    (fails : step.failure? = some error) (heard : step = .close → (session.after past).held) :
    (∀ call ∈ (session.after past).waitingCalls,
      (call, .failed error) ∈ ((session.after past).step step).1.finished) ∧
    ((session.after past).act (.perform step)).2.registry =
      { (session.after past).registry with
        pending := .empty
        inFlight := step.leaves (session.after past).registry.inFlight
        receiving := false } :=
  stopped_of_coherent (history_of_ofConfig fresh past).coherent receiving fails heard

def oneCall : List Action :=
  [.perform (.call ⟨9, 2, []⟩)]

-- The call fails with the pump, but its request is still in flight.
example : (Session.ofConfig {} (.scripted [] firstHash)).toOption.map (fun session =>
    let stopped := ((session.after oneCall).act (.perform .disconnectNode)).2
    (stopped.registry.pending.size, stopped.registry.inFlight.size)) = some (0, 1) :=
  rfl

theorem act_close (deaf : session.registry.receiving = false) (held : session.held) :
    session.act (.perform .close) =
      (⟨none, [], []⟩, { session with registry := session.registry.clearInFlight }) := by
  have cleared : (start session).close =
      (start session).withRegistry session.registry.clearInFlight := by
    have silent : ¬ session.registry.clearInFlight.receiving := by
      simp [Registry.clearInFlight, deaf]
    exact if_neg silent
  rw [act, Turn.act, Turn.perform, Turn.whileHeld_of_held held, cleared]
  rfl

theorem barred_close (held : session.held) :
    Barred (start session) (start (session.act (.perform .close)).2) := by
  cases receiving : session.registry.receiving with
  | true =>
      have registry : (session.act (.perform .close)).2.registry = _ :=
        @Turn.registry_of_failure (start session) .close .closed receiving rfl fun _ => held
      refine ⟨⟨?_, fun hash => ?_, ?_⟩, ?_, ?_, fun _ => .inl⟩
      · exact congrArg (·.inFlight.closed) registry
      · exact congrArg (·.inFlight.entries.get? hash) registry
      · exact congrArg (·.receiving) registry
      · exact congrArg (·.hashes) registry
      · intro hash call found
        cases (congrArg (·.pending.get? hash) registry).symm.trans found
  | false =>
      rw [act_close receiving held]
      exact ⟨⟨rfl, fun _ => rfl, receiving⟩, rfl, id, fun _ => .inl⟩

theorem barred_after (shut : session.Shut) (future : List Action) :
    Barred (start session) (start (session.after future)) := by
  induction future generalizing session with
  | nil => exact .refl shut
  | cons action future ih =>
      have first := @Turn.barred_act (start session) shut action
      have rest := ih first.shut
      exact ⟨rest.shut, rest.hashes.trans first.hashes,
        fun found => first.caller (rest.caller found), fun _ => .inl⟩

theorem coherent_after (h : Coherent earlier [] (start session)) (future : List Action) :
    ∃ earlier, Coherent earlier [] (start (session.after future)) := by
  induction future generalizing session earlier with
  | nil => exact ⟨earlier, h⟩
  | cons action future ih => exact ih (h.act action).next

/-- The client was closed. It draws no hash any more and registers nobody, no request with a hash
leaves it, and a new call is over at once. -/
structure Final (closing later : Session) : Prop where
  shut : later.Shut
  hashes : later.registry.hashes = closing.registry.hashes
  caller : ∀ {hash call}, later.caller? hash = some call → closing.caller? hash = some call
  sent : ∀ action, ∀ frame ∈ (later.act action).1.sent, Hashless frame
  request : ∀ call aim query,
    (start later).request call aim query = (start later).finish call (.failed .closed)
  call : later.held → ∀ query, later.act (.perform (.call query)) =
    (⟨none, [], [(later.started, .failed .closed)]⟩, { later with started := later.started + 1 })

theorem final_of_barred (h : Coherent earlier [] (start later))
    (barred : Barred (start closing) (start later)) : Final closing later where
  shut := barred.shut
  hashes := barred.hashes
  caller := barred.caller
  sent action frame member :=
    ((@Turn.barred_act (start later) barred.shut action).sent frame member).resolve_left
      List.not_mem_nil
  request _ aim query := Turn.request_of_closed barred.shut.closed aim query
  call held query := by
    have tasks : later.tasks.filter (·.call ≠ later.started) = later.tasks := by
      rw [List.filter_eq_self]
      intro task member
      exact decide_eq_true (Nat.ne_of_lt (h.task_live task member).1)
    have called : (start later).whileHeld (·.call query) =
        (start later).begin.2.finish later.started (.failed .closed) := by
      have closed : (start later).begin.2.session.registry.inFlight.closed := barred.shut.closed
      rw [Turn.whileHeld_of_held held]
      exact Turn.request_of_closed closed .reply query
    rw [act, Turn.act, Turn.perform, called]
    exact congrArg (fun tasks => (_, { later with started := later.started + 1, tasks })) tasks

theorem not_mem_finished_wakeAll {calls : List CallId} {outcome : Outcome} (apart : call ∉ calls)
    {report : Report} (unfinished : (call, outcome) ∉ report.finished) :
    (call, outcome) ∉ (wakeAll calls (report, session)).1.finished := by
  induction calls generalizing report session with
  | nil => exact unfinished
  | cons other calls ih =>
      rw [List.mem_cons, not_or] at apart
      refine ih apart.2 ?_
      intro member
      rcases mem_finished_append.mp member with old | new
      · exact unfinished old
      · rcases (Turn.deed_wake (start session) other).finished new with none | ⟨own, -⟩
        · cases none
        · exact apart.1 own

theorem not_told_of_waiting (h : Coherent earlier [] (start session))
    (waiting : call ∈ session.waitingCalls) : call ∉ session.toldCalls := by
  intro member
  obtain ⟨⟨_, stage⟩, told, rfl⟩ := List.mem_map.mp member
  obtain ⟨stands, isTold⟩ := List.mem_filter.mp told
  obtain ⟨_, aim, ticket, waits, -⟩ := (mem_waitingCalls h).mp waiting
  have waits := mem_of_stage? waits
  cases h.stage_eq stands waits
  cases isTold

/-- Closing ends every call that waits if the pump still reads or none waits, and only then. Either
way it is final. -/
structure Closes (session : Session) : Prop where
  reached : (∀ call ∈ session.waitingCalls,
        (call, .failed .closed) ∈ (session.step .close).1.finished) ∧
      (session.step .close).2.registry.pending.size = 0 ↔
    session.registry.receiving ∨ session.waitingCalls = []
  missed : session.registry.receiving = false → session.act (.perform .close) =
    (⟨none, [], []⟩, { session with registry := session.registry.clearInFlight })
  final : ∀ future, Final session ((session.act (.perform .close)).2.after future)

theorem size_pending_step_close (h : Coherent earlier [] (start session)) (held : session.held)
    (either : session.registry.receiving ∨ session.waitingCalls = []) :
    (session.step .close).2.registry.pending.size = 0 := by
  refine Table.size_eq_zero fun hash => Option.eq_none_iff_forall_not_mem.mpr ?_
  intro call found
  rw [step_eq_after] at found
  have closing := barred_close held
  have found : (session.act (.perform .close)).2.caller? hash = some call :=
    (barred_after closing.shut _).caller found
  rcases either with receiving | idle
  · have stopped := (@stopped_of_coherent _ _ .close .closed h receiving rfl fun _ => held).2
    rw [caller?, stopped] at found
    cases found
  · have waiting := (mem_waitingCalls h).mpr ⟨hash, (get?_pending h).mp (closing.caller found)⟩
    rw [idle] at waiting
    cases waiting

theorem closes_of_coherent (h : Coherent earlier [] (start session)) (held : session.held) :
    session.Closes where
  reached := by
    constructor
    · rintro ⟨all, -⟩
      by_contra neither
      obtain ⟨deaf, waiting⟩ := not_or.mp neither
      obtain ⟨call, member⟩ := List.exists_mem_of_ne_nil _ waiting
      have ended := all call member
      rw [step, act_close (Bool.eq_false_iff.mpr deaf) held] at ended
      exact not_mem_finished_wakeAll (not_told_of_waiting h member) List.not_mem_nil ended
    · intro either
      refine ⟨?_, size_pending_step_close h held either⟩
      rcases either with receiving | idle
      · exact (stopped_of_coherent h receiving rfl fun _ => held).1
      · rw [idle]
        exact fun _ member => nomatch member
  missed deaf := act_close deaf held
  final future := by
    obtain ⟨_, coherent⟩ := coherent_after (h.act (.perform .close)).next future
    have closing := barred_close held
    have later := barred_after closing.shut future
    exact final_of_barred coherent (closing.trans later)

theorem closes_after {config : Config} {hashes : HashSource}
    (fresh : Session.ofConfig config hashes = .ok session) (past : List Action)
    (held : (session.after past).held) : (session.after past).Closes :=
  closes_of_coherent (history_of_ofConfig fresh past).coherent held

theorem closes_after_oneCall : ∃ session,
    Session.ofConfig {} (.scripted [] firstHash) = .ok session ∧
    (session.after oneCall).held = true ∧ (session.after oneCall).Closes ∧
    (0, .failed .closed) ∈ ((session.after oneCall).step .close).1.finished := by
  have fresh : Session.ofConfig {} (.scripted [] firstHash) = .ok _ := rfl
  have closes := closes_after fresh oneCall rfl
  exact ⟨_, fresh, rfl, closes, (closes.reached.mpr (.inl rfl)).1 0 (List.mem_singleton_self 0)⟩

def lateCall : List Action :=
  [.perform (.failReceive (.io "reset")), .perform (.call ⟨9, 2, []⟩)]

theorem close_misses_lateCall : ∃ session,
    Session.ofConfig {} (.scripted [] firstHash) = .ok session ∧
    (session.after lateCall).held = true ∧ (session.after lateCall).waitingCalls = [0] ∧
    ((session.after lateCall).step .close).1.finished = [] ∧
    ((session.after lateCall).step .close).2.pendingCount? = some 1 :=
  ⟨_, rfl, rfl, rfl, rfl, rfl⟩

end Session

end Client

end NodeProtocol
