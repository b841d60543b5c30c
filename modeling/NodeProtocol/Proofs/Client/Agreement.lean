import NodeProtocol.Proofs.Client.Runs

/-!
# The tables of a client agree with its calls

* `Heeded`: no call is told that it was dropped, and none ends so. An action keeps this unless a
  call was told something before it that has not run on yet (`heeded_act`).
* `TablesAgree`: the hashes registered are those under which calls wait, each for one call, and
  what is in flight is registered for as long as the pump reads.
* `tables_agree`: so it is between the steps of every run, and no call is dropped.
-/

namespace NodeProtocol

theorem Table.get?_eq_some_iff {κ ν : Type} [DecidableEq κ] {table : Table κ ν}
    (nodup : table.keys.Nodup) {key : κ} {value : ν} :
    table.get? key = some value ↔ (key, value) ∈ table.pairs := by
  refine ⟨Table.mem_of_get?, fun member => ?_⟩
  obtain ⟨other, found⟩ := Table.mem_keys.mp (List.mem_map_of_mem member)
  cases List.inj_on_of_nodup_map nodup (Table.mem_of_get? found) member rfl
  exact found

namespace Client

/-! ## Dropped calls -/

def Undropped (finished : Ranking CallId Outcome) : Prop :=
  ∀ call, (call, .failed .channelClosed) ∉ finished

theorem undropped_nil : Undropped [] :=
  fun _ => List.not_mem_nil

namespace Turn

variable {scope : Scope} {loose loose' : List CallId} {turn after before : Turn} {call : CallId}
  {session : Session} {action : Action} {earlier : List CallId}

structure Heeded (turn : Turn) : Prop where
  told : ∀ {call aim ticket},
    ⟨call, .told aim ticket (.error .channelClosed)⟩ ∉ turn.session.tasks
  finished : Undropped turn.finished

theorem Heeded.sameCalls (h : Heeded before) (same : SameCalls after before) : Heeded after where
  told := by
    rw [same.tasks]
    exact h.told
  finished := by
    rw [same.finished]
    exact h.finished

theorem Move.heeded (silent : ¬ scope.tells .channelClosed)
    (move : Move scope (loose, before) (loose', after)) (h : Heeded before) : Heeded after where
  told := by
    intro call aim ticket member
    rcases move.told member with old | ⟨_, ⟨⟩, tells⟩
    · exact h.told old
    · exact silent tells
  finished := by
    intro call member
    cases move with
    | same same => exact h.finished call (same.finished ▸ member)
    | finish _ _ _ prompted =>
        rcases Ranking.mem_insert.mp member with equal | old
        · cases equal
          obtain ⟨aim, ticket, result, ends, stands⟩ := prompted rfl
          rw [Aim.outcome?_eq_dropped ends] at stands
          exact h.told stands
        · exact h.finished call old
    | accept _ _ accepted => exact h.finished call (accepted.finished ▸ member)
    | begin | pause | loosen | tell | tighten | stop => exact h.finished call member

theorem Restaged.heeded {aim : Aim} {ticket : Ticket} {result : Except CallError Reply}
    (h : Heeded before) (answered : result ≠ .error .channelClosed)
    (restaged : Restaged call (.told aim ticket result) after before) : Heeded after where
  told := by
    intro other aim' ticket' member
    rcases restaged.mem_tasks.mp member with ⟨old, -⟩ | equal
    · exact h.told old
    · cases equal
      exact answered rfl
  finished := by
    rw [restaged.finished]
    exact h.finished

theorem heeded_act (h : Coherent earlier [] (start session)) (heeded : Heeded (start session))
    (silent : ¬ session.Tells action .channelClosed) :
    Heeded ((start session).act action).2 := by
  cases handled : session.inbound? action with
  | none => exact (moves_act h handled).preserves (P := fun _ => Heeded) (Move.heeded silent) heeded
  | some raw =>
      obtain ⟨reads, delivers⟩ := act_of_inbound handled
      rw [delivers]
      rcases deliver_cases h reads with ⟨-, same⟩ | ⟨_, _, _, -, -, -, restaged⟩
      · exact heeded.sameCalls same
      · exact restaged.heeded heeded (Registry.judge_ne_dropped _ _ _)

/-! ## Running on -/

def RanOn (turn : Turn) (call : CallId) : Prop :=
  ∀ stage, ⟨call, stage⟩ ∈ turn.session.tasks → stage.isTold = false

theorem ranOn_finish (turn : Turn) (call : CallId) (outcome : Outcome) :
    (turn.finish call outcome).RanOn call := by
  intro stage member
  exact absurd rfl (mem_finish.mp member).2

theorem ranOn_await (turn : Turn) (call : CallId) {stage : Stage} (untold : stage.isTold = false) :
    (turn.await ⟨call, stage⟩).RanOn call := by
  intro stage' member
  rcases mem_await.mp member with ⟨-, differs⟩ | equal
  · exact absurd rfl differs
  · cases equal
    exact untold

theorem ranOn_request (turn : Turn) (call : CallId) (aim : Aim) (query : Query) :
    (turn.request call aim query).RanOn call := by
  rcases request_cases turn call aim query with ⟨_, _, -, -, refused⟩ | ⟨_, _, -, waits⟩
  · rw [refused]
    exact ranOn_finish _ call _
  · rw [waits]
    exact ranOn_await _ call rfl

theorem ranOn_poll (turn : Turn) (call : CallId) (query : Query) (pollsLeft : Nat) :
    (turn.poll call query pollsLeft).RanOn call := by
  cases pollsLeft with
  | zero => exact ranOn_finish turn call _
  | succ pollsLeft => exact ranOn_request turn call _ query

theorem ranOn_useReply (turn : Turn) (call : CallId) (aim : Aim) (reply : Reply) :
    (turn.useReply call aim reply).RanOn call := by
  cases aim with
  | reply => exact ranOn_finish turn call _
  | tokens types =>
      rw [useReply]
      split <;> exact ranOn_finish turn call _
  | terminalStatus query pollsLeft =>
      rw [useReply]
      split
      · exact ranOn_finish turn call _
      · split
        · exact ranOn_poll turn call query pollsLeft
        · exact ranOn_await turn call rfl

theorem ranOn_wake (h : Coherent earlier [] turn) (call : CallId) :
    (turn.wake call).RanOn call := by
  rw [wake]
  split
  case h_1 =>
    split
    · exact ranOn_useReply turn call _ _
    · exact ranOn_finish _ call _
    · exact ranOn_finish turn call _
  case h_2 idle =>
    intro stage member
    cases stage with
    | told aim ticket result => exact absurd (h.stage?_iff.mpr member) (idle aim ticket result)
    | awaiting | pausing => rfl

end Turn

/-! ## Steps -/

theorem Step.failure?_ne_dropped (step : Step) : step.failure? ≠ some .channelClosed := by
  cases step <;> nofun

def Stage.isAwaiting : Stage → Bool
  | awaiting .. => true
  | _ => false

namespace Session

open Turn (Coherent Heeded start)

variable {session : Session} {earlier : List CallId}

/-- Every call that was told something has run on. -/
structure Settled (session : Session) : Prop where
  coherent : ∃ earlier, Coherent earlier [] (start session)
  untold : ∀ task ∈ session.tasks, task.stage.isTold = false

theorem settled_wakeAll {calls : List CallId} {report : Report}
    (h : Coherent earlier [] (start session)) (heeded : Heeded (start session))
    (all : ∀ {call aim ticket result},
      ⟨call, .told aim ticket result⟩ ∈ session.tasks → call ∈ calls)
    (undropped : Undropped report.finished) :
    (wakeAll calls (report, session)).2.Settled ∧
      Undropped (wakeAll calls (report, session)).1.finished := by
  induction calls generalizing session earlier report with
  | nil =>
      refine ⟨⟨⟨earlier, h⟩, ?_⟩, undropped⟩
      rintro ⟨call, stage⟩ member
      cases stage with
      | awaiting | pausing => rfl
      | told => cases all member
  | cons call calls ih =>
      -- Nobody is told anything while calls run on: waking those that are left is enough.
      have silent (error : CallError) : ¬ session.Tells (.wake call) error := by
        rintro ⟨-, _, _, _, dropped⟩
        exact heeded.told dropped
      have woken := Turn.heeded_act h heeded (silent .channelClosed)
      have moves := Turn.moves_act (show Coherent earlier [] (start session) from h)
        (show session.inbound? (.wake call) = none from rfl)
      refine ih (h.act (.wake call)).next ⟨woken.told, undropped_nil⟩ ?_ ?_
      · intro other aim ticket result member
        rcases moves.told member with old | ⟨error, -, tells⟩
        · refine (List.mem_cons.mp (all old)).resolve_left ?_
          rintro rfl
          cases Turn.ranOn_wake h other _ member
        · exact absurd tells (silent error)
      · intro other member
        rcases mem_finished_append.mp member with old | new
        · exact undropped other old
        · exact woken.finished other new

theorem Settled.step (h : session.Settled) (step : Step) :
    (session.step step).2.Settled ∧ Undropped (session.step step).1.finished := by
  obtain ⟨earlier, coherent⟩ := h.coherent
  have silent : ¬ session.Tells (.perform step) .channelClosed := by
    rintro (failure | ⟨-, task, member, told⟩)
    · exact step.failure?_ne_dropped failure
    · cases (h.untold task member).symm.trans told
  have heeded : Heeded (start session) :=
    ⟨fun member => (nomatch h.untold _ member), undropped_nil⟩
  have performed := Turn.heeded_act coherent heeded silent
  exact settled_wakeAll (coherent.act (.perform step)).next
    ⟨performed.told, undropped_nil⟩ mem_toldCalls performed.finished

theorem Settled.run (h : session.Settled) (steps : List Step) :
    ∀ entry ∈ session.run steps, entry.2.Settled ∧ Undropped entry.1.finished := by
  induction steps generalizing session with
  | nil => exact fun _ member => nomatch member
  | cons first rest ih =>
      obtain ⟨settled, undropped⟩ := h.step first
      exact List.forall_mem_cons.mpr ⟨⟨settled, undropped⟩, ih settled⟩

/-! ## The tables -/

def WaitsUnder (session : Session) (call : CallId) (hash : Hash) : Prop :=
  ∃ aim ticket, session.stage? call = some (.awaiting aim ticket) ∧ ticket.hash = hash

def waitingCalls (session : Session) : List CallId :=
  (session.tasks.filter (·.stage.isAwaiting)).map (·.call)

structure TablesAgree (session : Session) : Prop where
  caller_iff : ∀ {hash call},
    session.registry.pending.get? hash = some call ↔ session.WaitsUnder call hash
  keys : ∀ {hash}, hash ∈ session.registry.pending.keys ↔ ∃ call, session.WaitsUnder call hash
  apart : ∀ {hash call other}, session.WaitsUnder call hash → session.WaitsUnder other hash →
    call = other
  waiting_iff : ∀ {call}, call ∈ session.waitingCalls ↔ ∃ hash, session.WaitsUnder call hash
  nodup : session.waitingCalls.Nodup
  size : session.registry.pending.size = session.waitingCalls.length
  count : session.held → session.pendingCount? = some session.waitingCalls.length
  inFlight : session.registry.receiving → ∀ {hash}, hash ∈ session.registry.inFlight.entries.keys →
    hash ∈ session.registry.pending.keys

section

variable (h : Coherent earlier [] (start session))

include h

theorem waitsUnder_iff {hash : Hash} {call : CallId} : session.WaitsUnder call hash ↔
    ∃ aim ticket, ⟨call, .awaiting aim ticket⟩ ∈ session.tasks ∧ ticket.hash = hash := by
  have stage?_iff {stage : Stage} :
      session.stage? call = some stage ↔ ⟨call, stage⟩ ∈ session.tasks := h.stage?_iff
  simp only [WaitsUnder, stage?_iff]

theorem get?_pending {hash : Hash} {call : CallId} :
    session.registry.pending.get? hash = some call ↔ session.WaitsUnder call hash := by
  rw [waitsUnder_iff h]
  exact h.pending_iff.trans (and_iff_right List.not_mem_nil)

theorem mem_waitingCalls {call : CallId} :
    call ∈ session.waitingCalls ↔ ∃ hash, session.WaitsUnder call hash := by
  simp only [waitsUnder_iff h, waitingCalls, List.mem_map, List.mem_filter]
  constructor
  · rintro ⟨⟨_, stage⟩, ⟨member, waits⟩, rfl⟩
    cases stage with
    | awaiting aim ticket => exact ⟨ticket.hash, aim, ticket, member, rfl⟩
    | told | pausing => cases waits
  · rintro ⟨_, aim, ticket, member, -⟩
    exact ⟨_, ⟨member, rfl⟩, rfl⟩

theorem nodup_waitingCalls : session.waitingCalls.Nodup :=
  h.nodup_tasks.sublist (List.filter_sublist.map _)

theorem callers_perm :
    (session.registry.pending.pairs.map (·.2)).Perm session.waitingCalls := by
  have nodup : session.registry.pending.keys.Nodup := h.aligned.nodup
  have found {hash : Hash} {call : CallId} :
      (hash, call) ∈ session.registry.pending.pairs ↔ session.WaitsUnder call hash := by
    rw [← Table.get?_eq_some_iff nodup, get?_pending h]
  rw [List.perm_ext_iff_of_nodup _ (nodup_waitingCalls h)]
  · intro call
    rw [mem_waitingCalls h, List.mem_map]
    simp only [← found, Prod.exists, exists_eq_right]
  · -- A call waits under one hash at a time.
    refine List.Nodup.map_on ?_ nodup.of_map
    rintro ⟨hash, call⟩ member ⟨hash', _⟩ member' rfl
    obtain ⟨aim, ticket, waits, rfl⟩ := found.mp member
    obtain ⟨aim', ticket', waits', rfl⟩ := found.mp member'
    cases waits.symm.trans waits'
    rfl

theorem tablesAgree_of_coherent : session.TablesAgree := by
  have size : session.registry.pending.size = session.waitingCalls.length := by
    rw [← (callers_perm h).length_eq, List.length_map, Table.size]
  refine ⟨get?_pending h, ?_, ?_, mem_waitingCalls h, nodup_waitingCalls h, size, ?_, ?_⟩
  · intro hash
    simp only [Table.mem_keys, get?_pending h]
  · intro hash call other waits waits'
    exact Option.some.inj (((get?_pending h).mpr waits).symm.trans ((get?_pending h).mpr waits'))
  · intro held
    rw [pendingCount?, if_pos held, size]
  · intro reads hash member
    obtain ⟨entry, found⟩ := Table.mem_keys.mp member
    exact Table.mem_keys.mpr (h.aligned.registered reads found)

end

theorem Settled.toldCalls (h : session.Settled) : session.toldCalls = [] := by
  rw [Session.toldCalls, List.map_eq_nil_iff, List.filter_eq_nil_iff]
  intro task member
  simp [h.untold task member]

/-- Between the steps of a run, whatever the source of hashes, every call in progress waits, the
tables agree with the calls, and no call is ever dropped. -/
theorem tables_agree {config : Config} {hashes : HashSource}
    (fresh : Session.ofConfig config hashes = .ok session) (steps : List Step) :
    session.TablesAgree ∧ ∀ entry ∈ session.run steps,
      entry.2.toldCalls = [] ∧ entry.2.TablesAgree ∧ Undropped entry.1.finished := by
  obtain ⟨-, tasks, pending, inFlight⟩ := ofConfig_eq_ok fresh
  have initial : Coherent [] [] (start session) := .initial tasks pending inFlight
  refine ⟨tablesAgree_of_coherent initial, ?_⟩
  intro entry member
  have untold : ∀ task ∈ session.tasks, task.stage.isTold = false := by
    rw [tasks]
    exact fun _ member => nomatch member
  obtain ⟨settled, undropped⟩ := Settled.run ⟨⟨[], initial⟩, untold⟩ steps entry member
  obtain ⟨earlier, coherent⟩ := settled.coherent
  exact ⟨settled.toldCalls, tablesAgree_of_coherent coherent, undropped⟩

/-- Three calls draw the same hash: the first one is abandoned, the second one is answered, and the
third one waits when the client is closed. -/
def abandonedCalls : List Step :=
  [.call ⟨9, 2, []⟩, .abort 0, .call ⟨9, 3, []⟩, .reply 1 [7] none none, .call ⟨9, 4, []⟩, .close]

theorem tables_agree_abandoned : ∃ session,
    Session.ofConfig {} (.scripted [] ⟨[1, 2, 3, 4, 5, 6, 7, 8], rfl⟩) = .ok session ∧
    (session.run abandonedCalls).map (·.2.pendingCount?) =
      [some 1, some 0, some 1, some 0, some 1, some 0] ∧
    session.TablesAgree ∧ ∀ entry ∈ session.run abandonedCalls,
      entry.2.toldCalls = [] ∧ entry.2.TablesAgree ∧ Undropped entry.1.finished := by
  have fresh : Session.ofConfig {} (.scripted [] ⟨[1, 2, 3, 4, 5, 6, 7, 8], rfl⟩) = .ok _ := rfl
  exact ⟨_, fresh, rfl, tables_agree fresh abandonedCalls⟩

end Session

end Client

end NodeProtocol
