import Mathlib.Data.Nat.Find
import NodeProtocol.Proofs.Client.Closing

/-!
# Calls that cannot start

* `Registry.FirstFree` and `Registry.Exhausted`: which of the next hashes a new call gets, if any.
  A registry draws up to that one and no further (`Registry.enrols`).
* `Turn.requestFails`: what the request of a call does, for a new call as well as for a poll that
  asks again, if it is refused or if its frame cannot be sent.
* `unstarted_call_disturbs_nothing`: after a call that could not start, a client is as it was
  before, but for the source of hashes; if it failed when its frame was sent, its registration is
  gone as well.
-/

namespace NodeProtocol

namespace Client

namespace HashSource

def upcoming (source : HashSource) (n : Nat) : Hash :=
  source.hash (source.drawn + n)

def skip (source : HashSource) (n : Nat) : HashSource :=
  { source with drawn := source.drawn + n }

theorem upcoming_skip (source : HashSource) (n i : Nat) :
    (source.skip n).upcoming i = source.upcoming (n + i) := by
  rw [upcoming, upcoming, skip, Nat.add_assoc]

end HashSource

namespace Registry

variable {registry : Registry} {skipped : Nat} {hash : Hash}

def Exhausted (registry : Registry) : Prop :=
  ∀ i < 16, registry.hashes.upcoming i ∈ registry.pending.keys

instance (registry : Registry) : Decidable registry.Exhausted :=
  inferInstanceAs (Decidable (∀ i < 16, registry.hashes.upcoming i ∈ registry.pending.keys))

/-- The first of the next hashes that no waiting call has comes after `skipped` others. -/
structure FirstFree (registry : Registry) (skipped : Nat) (hash : Hash) : Prop where
  soon : skipped < 16
  drawn : registry.hashes.upcoming skipped = hash
  free : hash ∉ registry.pending.keys
  taken : ∀ i < skipped, registry.hashes.upcoming i ∈ registry.pending.keys

theorem exhausted_or_firstFree (registry : Registry) :
    registry.Exhausted ∨ ∃ skipped hash, registry.FirstFree skipped hash := by
  by_cases exhausted : registry.Exhausted
  · exact .inl exhausted
  · -- The least draw that is free has only taken ones before it.
    have some_free : ∃ i, i < 16 ∧ registry.hashes.upcoming i ∉ registry.pending.keys := by
      simpa [Exhausted] using exhausted
    classical
    obtain ⟨soon, free⟩ := Nat.find_spec some_free
    refine .inr ⟨_, _, soon, rfl, free, fun i before => ?_⟩
    by_contra free
    exact Nat.find_min some_free before ⟨before.trans soon, free⟩

theorem drawFree_skip {pending : Table Hash CallId} {n : Nat} {source : HashSource}
    (taken : ∀ i < n, source.upcoming i ∈ pending.keys) (draws : Nat) :
    drawFree pending (n + draws) source = drawFree pending draws (source.skip n) := by
  induction n generalizing source with
  | zero => rw [Nat.zero_add]; rfl
  | succ n ih =>
      have first : pending.contains source.draw.1 :=
        Table.contains_iff.mpr (taken 0 (Nat.succ_pos n))
      have rest : ∀ i < n, (source.skip 1).upcoming i ∈ pending.keys := by
        intro i inside
        rw [HashSource.upcoming_skip, Nat.add_comm]
        exact taken (i + 1) (Nat.succ_lt_succ inside)
      rw [Nat.succ_add, drawFree_succ, if_pos first]
      refine (ih rest).trans (congrArg _ ?_)
      rw [HashSource.skip, HashSource.skip, HashSource.skip, Nat.add_assoc, Nat.add_comm 1]

theorem drawFree_of_exhausted (h : registry.Exhausted) :
    drawFree registry.pending maxHashDraws registry.hashes =
      (none, registry.hashes.skip 16) :=
  drawFree_skip (n := 16) h 0

theorem drawFree_of_firstFree (h : registry.FirstFree skipped hash) :
    drawFree registry.pending maxHashDraws registry.hashes =
      (some hash, registry.hashes.skip (skipped + 1)) := by
  have next : (registry.hashes.skip skipped).draw.1 = hash := h.drawn
  have free : ¬ registry.pending.contains (registry.hashes.skip skipped).draw.1 := by
    rw [next, Table.contains_iff]
    exact h.free
  have draws : maxHashDraws = skipped + ((15 - skipped) + 1) := by
    have soon := h.soon
    rw [maxHashDraws]
    omega
  rw [draws, drawFree_skip h.taken, drawFree_succ, if_neg free]
  exact Prod.ext (congrArg some next) rfl

structure Enrols (registry : Registry) (call : CallId) (request : RequestInfo) : Prop where
  closed : registry.inFlight.closed → registry.register call request = (.error .closed, registry)
  exhausted : registry.inFlight.closed = false → registry.Exhausted →
    registry.register call request =
      (.error .hashExhausted, { registry with hashes := registry.hashes.skip 16 })
  first : registry.inFlight.closed = false → ∀ {skipped hash}, registry.FirstFree skipped hash →
    registry.register call request =
      (.ok ⟨hash, request⟩,
        { registry with
          hashes := registry.hashes.skip (skipped + 1)
          inFlight := (registry.inFlight.put hash request request.sentAt).2
          pending := registry.pending.insert hash call })
  decided : registry.Exhausted ∨ ∃ skipped hash, registry.FirstFree skipped hash

theorem enrols (registry : Registry) (call : CallId) (request : RequestInfo) :
    registry.Enrols call request where
  closed closed := by rw [register, if_pos closed]
  exhausted isOpen exhausted := by
    rw [register, if_neg (by simp [isOpen]), drawFree_of_exhausted exhausted]
  first isOpen skipped hash free := by
    have put : registry.inFlight.put hash request request.sentAt =
        (.ok (registry.inFlight.insert hash request request.sentAt).1,
          (registry.inFlight.put hash request request.sentAt).2) := by
      simp [Cache.put, isOpen]
    rw [register, if_neg (by simp [isOpen]), drawFree_of_firstFree free]
    dsimp only
    rw [put]
  decided := registry.exhausted_or_firstFree

end Registry

def Session.sendError? (session : Session) : Option TransportError :=
  match session.sendFaults with
  | fault :: _ => some fault
  | [] => if session.node.connected then none else some (.connectionLost "Channel closed")

/-- A call was registered under the hash, which was drawn after `skipped` others, and its
registration was taken back. In flight, there is room for what was there before at most. -/
structure Session.Withdrawn (skipped : Nat) (hash : Hash) (before after : Session) : Prop where
  now : after.now = before.now
  tasks : after.tasks = before.tasks
  node : after.node = before.node
  hashes : after.registry.hashes = before.registry.hashes.skip (skipped + 1)
  pending : after.registry.pending = before.registry.pending
  unregistered : hash ∉ after.registry.pending.keys
  grounded : hash ∉ after.registry.inFlight.entries.keys
  inFlight : ∀ {other entry}, after.registry.inFlight.entries.get? other = some entry →
    before.registry.inFlight.entries.get? other = some entry

namespace Turn

variable {turn : Turn} {call : CallId} {aim : Aim} {query : Query} {skipped : Nat} {hash : Hash}
  {cause : TransportError}

theorem transmit_of_error (fails : turn.session.sendError? = some cause) (frame : Bytes) :
    turn.transmit frame = (.error cause,
      turn.modify fun session => { session with sendFaults := session.sendFaults.tail }) := by
  obtain ⟨session, sent, finished⟩ := turn
  obtain ⟨registry, now, tasks, node, sendFaults, started, held⟩ := session
  cases sendFaults with
  | nil =>
      rw [Session.sendError?] at fails
      dsimp only at fails
      split at fails
      case isTrue => cases fails
      case isFalse gone =>
        cases fails
        rw [transmit]
        exact if_neg gone
  | cons fault faults =>
      cases fails
      rfl

structure Withdrawn (skipped : Nat) (hash : Hash) (before after : Turn) : Prop where
  sent : after.sent = before.sent
  finished : after.finished = before.finished
  started : after.session.started = before.session.started
  session : Session.Withdrawn skipped hash before.session after.session

def drawing (turn : Turn) (n : Nat) : Turn :=
  turn.withRegistry
    { turn.session.registry with hashes := turn.session.registry.hashes.skip n }

/-- What the request of a call does if it comes to nothing. The call is over then. -/
structure RequestFails (turn : Turn) (call : CallId) (aim : Aim) (query : Query) : Prop where
  closed : turn.session.registry.inFlight.closed →
    turn.request call aim query = turn.finish call (.failed .closed)
  exhausted : turn.session.registry.inFlight.closed = false → turn.session.registry.Exhausted →
    turn.request call aim query = (turn.drawing 16).finish call (.failed .hashExhausted)
  unsent : turn.session.registry.inFlight.closed = false →
    ∀ {skipped hash cause}, turn.session.registry.FirstFree skipped hash →
    turn.session.sendError? = some cause →
    ∃ after : Turn, Withdrawn skipped hash turn after ∧
      turn.request call aim query = after.finish call (.failed (.transport cause))

theorem request_unsent (isOpen : turn.session.registry.inFlight.closed = false)
    (free : turn.session.registry.FirstFree skipped hash)
    (fails : turn.session.sendError? = some cause) :
    ∃ after : Turn, Withdrawn skipped hash turn after ∧
      turn.request call aim query = after.finish call (.failed (.transport cause)) := by
  let request : RequestInfo := ⟨query.service, query.function, turn.session.now⟩
  let entered := turn.withRegistry
    { turn.session.registry with
      hashes := turn.session.registry.hashes.skip (skipped + 1)
      inFlight := (turn.session.registry.inFlight.put hash request turn.session.now).2
      pending := turn.session.registry.pending.insert hash call }
  let unsent := entered.modify fun session =>
    { session with sendFaults := session.sendFaults.tail }
  have registered := (turn.session.registry.enrols call request).first isOpen free
  have faulty : entered.session.sendError? = some cause := fails
  have failed : entered.transmit
      (query.frame turn.session.config.protocolVersion (some hash)) = (.error cause, unsent) :=
    transmit_of_error faulty _
  have owner : unsent.session.registry.pending.get? hash = some call :=
    (Table.get?_insert ..).trans (if_pos rfl)
  have forgotten : unsent.forget call ⟨hash, request⟩ =
      unsent.withRegistry (unsent.session.registry.forget hash turn.session.now).2 :=
    forget_eq fun other found => (Option.some.inj (owner.symm.trans found)).symm
  have pending : (unsent.session.registry.forget hash turn.session.now).2.pending =
      turn.session.registry.pending := Table.erase_insert free.free call
  refine ⟨unsent.forget call ⟨hash, request⟩, ?_, ?_⟩
  · rw [forgotten]
    refine ⟨rfl, rfl, rfl, rfl, rfl, rfl, rfl, pending, ?_, ?_, ?_⟩
    · exact pending ▸ free.free
    · refine Table.get?_eq_none_iff.mp ?_
      exact (Cache.get?_remove _ hash hash turn.session.now).trans (if_pos rfl)
    · intro other entry found
      change (Cache.remove _ hash turn.session.now).2.entries.get? other = some entry at found
      rw [Cache.get?_remove] at found
      split at found
      · cases found
      case isFalse differs =>
        have old := Cache.get?_of_put isOpen found
        rwa [if_neg differs] at old
  · rw [Turn.request]
    dsimp only
    rw [registered]
    dsimp only
    rw [failed]

theorem requestFails (turn : Turn) (call : CallId) (aim : Aim) (query : Query) :
    turn.RequestFails call aim query where
  closed closed := request_of_closed closed aim query
  exhausted isOpen exhausted := by
    have refused := (turn.session.registry.enrols call
      ⟨query.service, query.function, turn.session.now⟩).exhausted isOpen exhausted
    rw [request]
    dsimp only
    rw [refused]
    rfl
  unsent isOpen _ _ _ := request_unsent isOpen

end Turn

def Step.firstRequest? : Step → Option (Except Abi.Error (Aim × Query))
  | call query => some (.ok (.reply, query))
  | callAbi service function signature args returns =>
    some ((signature.encodeCall args).map fun payload =>
      (.tokens returns, ⟨service, function, payload⟩))
  | pollStatus query (pollsLeft + 1) => some (.ok (.terminalStatus query pollsLeft, query))
  | _ => none

namespace Session

variable {session : Session} {step : Step} {earlier : List CallId}

open Turn (Coherent start)

def refusing (session : Session) (draws : Nat) (error : CallError) : Report × Session :=
  (⟨none, [], [(session.started, .failed error)]⟩,
    { session with
      started := session.started + 1
      registry := { session.registry with hashes := session.registry.hashes.skip draws } })

structure Unstarted (session : Session) (step : Step) : Prop where
  unfit : ∀ {cause}, step.firstRequest? = some (.error cause) →
    session.act (.perform step) = session.refusing 0 (.abi cause)
  closed : ∀ {asked}, step.firstRequest? = some (.ok asked) →
    session.registry.inFlight.closed →
    session.act (.perform step) = session.refusing 0 .closed
  exhausted : ∀ {asked}, step.firstRequest? = some (.ok asked) →
    session.registry.inFlight.closed = false → session.registry.Exhausted →
    session.act (.perform step) = session.refusing 16 .hashExhausted
  unsent : ∀ {asked}, step.firstRequest? = some (.ok asked) →
    session.registry.inFlight.closed = false →
    ∀ {skipped hash cause}, session.registry.FirstFree skipped hash →
    session.sendError? = some cause →
    ∃ later : Session, Withdrawn skipped hash session later ∧
      session.act (.perform step) =
        (⟨none, [], [(session.started, .failed (.transport cause))]⟩, later)

theorem perform_of_firstRequest (held : session.held) {aim : Aim} {query : Query}
    (asks : step.firstRequest? = some (.ok (aim, query))) :
    (start session).perform step =
      (none, (start session).begin.2.request session.started aim query) := by
  cases step with
  | call query =>
      cases asks
      exact congrArg _ (Turn.whileHeld_of_held held (·.call query))
  | callAbi service function signature args returns =>
      cases encoded : signature.encodeCall args with
      | error cause => simp [Step.firstRequest?, encoded, Except.map] at asks
      | ok payload =>
          simp only [Step.firstRequest?, encoded, Except.map, Option.some_inj, Except.ok.injEq,
            Prod.mk.injEq] at asks
          obtain ⟨rfl, rfl⟩ := asks
          refine congrArg _ ((Turn.whileHeld_of_held held _).trans ?_)
          rw [Turn.callAbi]
          dsimp only
          rw [encoded]
          rfl
  | pollStatus query maxPolls =>
      cases maxPolls with
      | zero => cases asks
      | succ pollsLeft =>
          cases asks
          exact congrArg _ (Turn.whileHeld_of_held held (·.pollStatus query (pollsLeft + 1)))
  | _ => cases asks

theorem perform_of_unfit (held : session.held) {cause : Abi.Error}
    (unfit : step.firstRequest? = some (.error cause)) :
    (start session).perform step =
      (none, (start session).begin.2.finish session.started (.failed (.abi cause))) := by
  cases step with
  | callAbi service function signature args returns =>
      cases encoded : signature.encodeCall args with
      | ok payload => simp [Step.firstRequest?, encoded, Except.map] at unfit
      | error cause' =>
          simp only [Step.firstRequest?, encoded, Except.map, Option.some_inj,
            Except.error.injEq] at unfit
          subst unfit
          refine congrArg _ ((Turn.whileHeld_of_held held _).trans ?_)
          rw [Turn.callAbi]
          dsimp only
          rw [encoded]
          rfl
  | pollStatus query maxPolls => cases maxPolls <;> cases unfit
  | _ => cases unfit

theorem act_of_finish (h : Coherent earlier [] (start session)) {after : Turn} {outcome : Outcome}
    (performed : (start session).perform step = (none, after.finish session.started outcome))
    (tasks : after.session.tasks = session.tasks) (sent : after.sent = [])
    (finished : after.finished = []) :
    session.act (.perform step) =
      (⟨none, [], [(session.started, outcome)]⟩, after.session) := by
  -- The new call has no task to drop.
  have others : after.session.tasks.filter (·.call ≠ session.started) = after.session.tasks := by
    rw [List.filter_eq_self, tasks]
    intro task member
    exact decide_eq_true (Nat.ne_of_lt (h.task_live task member).1)
  rw [act, Turn.act, performed]
  dsimp only [Turn.finish]
  rw [others, sent, finished]
  rfl

theorem act_of_request (h : Coherent earlier [] (start session)) (held : session.held)
    {aim : Aim} {query : Query} (asks : step.firstRequest? = some (.ok (aim, query)))
    {after : Turn} {outcome : Outcome}
    (ends : (start session).begin.2.request session.started aim query =
      after.finish session.started outcome)
    (tasks : after.session.tasks = session.tasks) (sent : after.sent = [])
    (finished : after.finished = []) :
    session.act (.perform step) = (⟨none, [], [(session.started, outcome)]⟩, after.session) :=
  act_of_finish h ((perform_of_firstRequest held asks).trans (congrArg _ ends)) tasks sent finished

theorem unstarted_of_coherent (h : Coherent earlier [] (start session)) (held : session.held)
    (step : Step) : session.Unstarted step where
  unfit unfit := act_of_finish h (perform_of_unfit held unfit) rfl rfl rfl
  closed := by
    rintro ⟨aim, query⟩ asks closed
    have fails := (start session).begin.2.requestFails session.started aim query
    exact act_of_request h held asks (fails.closed closed) rfl rfl rfl
  exhausted := by
    rintro ⟨aim, query⟩ asks isOpen exhausted
    have fails := (start session).begin.2.requestFails session.started aim query
    exact act_of_request h held asks (fails.exhausted isOpen exhausted) rfl rfl rfl
  unsent := by
    rintro ⟨aim, query⟩ asks isOpen skipped hash cause free fails
    obtain ⟨after, withdrawn, refused⟩ :=
      ((start session).begin.2.requestFails session.started aim query).unsent isOpen free fails
    have later := withdrawn.session
    refine ⟨after.session, ⟨later.now, later.tasks, later.node, later.hashes, later.pending,
      later.unregistered, later.grounded, later.inFlight⟩, ?_⟩
    exact act_of_request h held asks refused later.tasks withdrawn.sent withdrawn.finished

/-- Whatever happened before, and whatever hashes the source will draw. The first part is about
registering, the second one about steps that start a call, and the last one about every request,
those of a poll that goes on included. -/
theorem unstarted_call_disturbs_nothing {config : Config} {hashes : HashSource}
    (fresh : Session.ofConfig config hashes = .ok session) (past : List Action)
    (held : (session.after past).held) :
    (∀ call request, (session.after past).registry.Enrols call request) ∧
    (∀ step, (session.after past).Unstarted step) ∧
    ∀ (turn : Turn) call aim query, turn.RequestFails call aim query :=
  ⟨(session.after past).registry.enrols,
    unstarted_of_coherent (history_of_ofConfig fresh past).coherent held, Turn.requestFails⟩

/-- The source repeats one hash. While a call waits under it, no other one can start, and before
that, a call whose frame is too large gives it back. -/
theorem unstarted_call_repeated_hash : ∃ session,
    Session.ofConfig {} (.scripted [] firstHash) = .ok session ∧
    (session.after oneCall).act (.perform (.call ⟨9, 3, []⟩)) =
      (session.after oneCall).refusing 16 .hashExhausted ∧
    ∃ later, Withdrawn 0 firstHash (session.after [.perform (.failNextSend .payloadTooLarge)])
        later ∧
      (session.after [.perform (.failNextSend .payloadTooLarge)]).act
          (.perform (.call ⟨9, 2, []⟩)) =
        (⟨none, [], [(0, .failed (.transport .payloadTooLarge))]⟩, later) := by
  have fresh : Session.ofConfig {} (.scripted [] firstHash) = .ok _ := rfl
  have waiting := unstarted_call_disturbs_nothing fresh oneCall rfl
  have failing := unstarted_call_disturbs_nothing fresh
    [.perform (.failNextSend .payloadTooLarge)] rfl
  exact ⟨_, fresh, (waiting.2.1 (.call ⟨9, 3, []⟩)).exhausted rfl rfl (by decide),
    (failing.2.1 (.call ⟨9, 2, []⟩)).unsent rfl rfl ⟨by decide, rfl, by decide, by decide⟩ rfl⟩

end Session

end Client

end NodeProtocol
