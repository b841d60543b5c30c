import Mathlib.Data.List.Nodup
import NodeProtocol.Client.Step
import NodeProtocol.Proofs.Cache.Entries

namespace NodeProtocol.Client

open Cache

namespace Registry

variable {registry : Registry} {raw : Bytes} {hash : Hash} {call : CallId} {now : Nat}

theorem drawFree_succ (pending : Table Hash CallId) (draws : Nat) (source : HashSource) :
    drawFree pending (draws + 1) source =
      if pending.contains source.draw.1 then drawFree pending draws source.draw.2
      else (some source.draw.1, source.draw.2) :=
  rfl

theorem drawFree_free {pending : Table Hash CallId} {draws : Nat} {source : HashSource}
    (h : (drawFree pending draws source).1 = some hash) : pending.get? hash = none := by
  induction draws generalizing source with
  | zero => cases h
  | succ draws ih =>
      rw [drawFree_succ] at h
      by_cases taken : pending.contains source.draw.1
      · rw [if_pos taken] at h
        exact ih h
      · rw [if_neg taken] at h
        cases h
        simpa [Table.contains] using taken

theorem register_cases (registry : Registry) (call : CallId) (request : RequestInfo) :
    (∃ error hashes, registry.register call request = (.error error, { registry with hashes }) ∧
      error ≠ .channelClosed) ∨
    ∃ hash hashes, registry.pending.get? hash = none ∧ registry.inFlight.closed = false ∧
      registry.register call request =
        (.ok ⟨hash, request⟩,
          { registry with
            hashes
            inFlight := (registry.inFlight.put hash request request.sentAt).2
            pending := registry.pending.insert hash call }) := by
  by_cases closed : registry.inFlight.closed
  · refine .inl ⟨.closed, registry.hashes, ?_, nofun⟩
    rw [register, if_pos closed]
  · rw [register, if_neg closed]
    cases drawn : drawFree registry.pending maxHashDraws registry.hashes with
    | mk free hashes =>
        cases free with
        | none => exact .inl ⟨_, hashes, rfl, nofun⟩
        | some hash =>
            have unused : registry.pending.get? hash = none :=
              drawFree_free (congrArg Prod.fst drawn)
            have isOpen : registry.inFlight.closed = false := by simpa using closed
            refine .inr ⟨hash, hashes, unused, isOpen, ?_⟩
            simp only [Cache.put, isOpen]
            rfl

theorem fst_register (registry : Registry) (call other : CallId) (request : RequestInfo) :
    (registry.register call request).1 = (registry.register other request).1 := by
  rw [register, register]
  split
  · rfl
  · dsimp only
    split
    · rfl
    · split <;> rfl

theorem judge_ne_dropped (config : Config) (request : Option RequestInfo) (response : Response) :
    judge config request response ≠ .error .channelClosed := by
  fun_cases judge config request response <;> nofun

theorem judge_eq_ok {config : Config} {request : Option RequestInfo} {response : Response}
    {reply : Reply} :
    judge config request response = .ok reply ↔
      ∃ info, request = some info ∧ info.service = response.service ∧
        response.version = config.protocolVersion ∧
        reply = ⟨response.version, response.service, response.body⟩ := by
  cases request with
  | none => simp [judge]
  | some info =>
      by_cases service : info.service = response.service
      · by_cases version : response.version = config.protocolVersion
        · simp [judge, service, version, eq_comm]
        · simp [judge, service, version]
      · simp [judge, service]

theorem receive_of_no_hash (h : (Response.parse raw).hash = none) :
    registry.receive raw now = (none, registry) := by
  simp only [receive, h]

theorem receive_of_unknown (h : (Response.parse raw).hash = some hash)
    (unknown : registry.pending.get? hash = none) :
    registry.receive raw now = (none, (registry.forget hash now).2) := by
  simp only [receive, h, unknown, forget, Table.erase_eq_self (Table.get?_eq_none_iff.mp unknown)]

theorem receive_of_pending (h : (Response.parse raw).hash = some hash)
    (known : registry.pending.get? hash = some call) :
    registry.receive raw now =
      (some (call, judge registry.config (registry.inFlight.remove hash now).1
          (Response.parse raw)), (registry.forget hash now).2) := by
  simp only [receive, h, known, forget]

/-- A frame takes its own hash out of both tables, whether or not a call waits under it. -/
theorem snd_receive (named : (Response.parse raw).hash = some hash) :
    (registry.receive raw now).2 = (registry.forget hash now).2 := by
  cases known : registry.pending.get? hash with
  | none => rw [receive_of_unknown named known]
  | some call => rw [receive_of_pending named known]

theorem get?_pending_receive_of_ne (other : (Response.parse raw).hash ≠ some hash) :
    (registry.receive raw now).2.pending.get? hash = registry.pending.get? hash := by
  cases named : (Response.parse raw).hash with
  | none => rw [receive_of_no_hash named]
  | some own =>
      have differs : hash ≠ own := fun equal => other (equal ▸ named)
      rw [snd_receive named]
      exact (Table.get?_erase ..).trans (if_neg differs)

theorem get?_inFlight_receive_of_ne (other : (Response.parse raw).hash ≠ some hash) :
    (registry.receive raw now).2.inFlight.entries.get? hash =
      registry.inFlight.entries.get? hash := by
  cases named : (Response.parse raw).hash with
  | none => rw [receive_of_no_hash named]
  | some own =>
      have differs : hash ≠ own := fun equal => other (equal ▸ named)
      rw [snd_receive named]
      exact (get?_remove registry.inFlight own hash now).trans (if_neg differs)

/-- A request may be in flight without its call only once the pump is gone. -/
structure Aligned (registry : Registry) : Prop where
  nodup : registry.pending.keys.Nodup
  registered : registry.receiving → ∀ {hash entry},
    registry.inFlight.entries.get? hash = some entry →
    ∃ call, registry.pending.get? hash = some call

namespace Aligned

theorem initial (pending : registry.pending = .empty)
    (inFlight : registry.inFlight.entries = .empty) : registry.Aligned where
  nodup := by
    rw [pending]
    exact List.nodup_nil
  registered _ _ _ found := by
    rw [inFlight] at found
    cases found

theorem lose {inFlight : Cache Hash RequestInfo} (h : registry.Aligned)
    (shrinks : ∀ {hash entry}, inFlight.entries.get? hash = some entry →
      registry.inFlight.entries.get? hash = some entry) :
    Aligned { registry with inFlight } where
  nodup := h.nodup
  registered reads _ _ found := h.registered reads (shrinks found)

theorem forget (h : registry.Aligned) (hash : Hash) (now : Nat) :
    (registry.forget hash now).2.Aligned where
  nodup := Table.nodup_keys_erase h.nodup hash
  registered := by
    intro reads other entry found
    change (registry.inFlight.remove hash now).2.entries.get? other = some entry at found
    change ∃ call, (registry.pending.erase hash).get? other = some call
    rw [get?_remove] at found
    rw [Table.get?_erase]
    split at found
    case isTrue => cases found
    case isFalse differs =>
      rw [if_neg differs]
      exact h.registered reads found

theorem enter {request : RequestInfo} (h : registry.Aligned) (call : CallId)
    (hashes : HashSource) (isOpen : registry.inFlight.closed = false) :
    Aligned { registry with
      hashes
      inFlight := (registry.inFlight.put hash request request.sentAt).2
      pending := registry.pending.insert hash call } where
  nodup := Table.nodup_keys_insert h.nodup hash call
  registered := by
    intro reads other entry found
    change ∃ caller, (registry.pending.insert hash call).get? other = some caller
    have entry_from := get?_of_put isOpen found
    rw [Table.get?_insert]
    split at entry_from
    case isTrue equal => exact ⟨call, if_pos equal⟩
    case isFalse differs =>
      rw [if_neg differs]
      exact h.registered reads entry_from

theorem stop (registry : Registry) : registry.stop.2.Aligned :=
  ⟨List.nodup_nil, nofun⟩

end Aligned

end Registry

def Outcome.isAnswer : Outcome → Bool
  | reply _ | tokens _ | status _ => true
  | notified | aborted | failed _ => false

def Outcome.isPrompted : Outcome → Bool
  | reply _ | tokens _ | status _ | failed .channelClosed => true
  | notified | aborted | failed _ => false

theorem Outcome.isPrompted_failed {error : CallError} (answered : error ≠ .channelClosed) :
    (failed error).isPrompted = false := by
  cases error with
  | channelClosed => exact absurd rfl answered
  | _ => rfl

theorem Outcome.isPrompted_of_isAnswer {outcome : Outcome} (answer : outcome.isAnswer) :
    outcome.isPrompted := by
  cases outcome with
  | reply | tokens | status => rfl
  | notified | aborted | failed => cases answer

namespace Session

theorem mem_of_stage? {session : Session} {call : CallId} {stage : Stage}
    (h : session.stage? call = some stage) : ⟨call, stage⟩ ∈ session.tasks := by
  obtain ⟨task, found, rfl⟩ := Option.map_eq_some_iff.mp h
  have same : task.call = call := by simpa using List.find?_some found
  exact same ▸ List.mem_of_find?_eq_some found

theorem stage?_of_mem {session : Session} {task : Task}
    (nodup : (session.tasks.map (·.call)).Nodup) (h : task ∈ session.tasks) :
    session.stage? task.call = some task.stage := by
  have found : session.tasks.find? (·.call = task.call) = some task := by
    cases search : session.tasks.find? (·.call = task.call) with
    | none =>
        have differs := List.find?_eq_none.mp search task h
        simp at differs
    | some other =>
        have same : other.call = task.call := by simpa using List.find?_some search
        have member := List.mem_of_find?_eq_some search
        rw [List.inj_on_of_nodup_map nodup member h same]
  rw [stage?, found, Option.map_some]

end Session

namespace Turn

variable {turn : Turn} {call : CallId}

structure SameCalls (after before : Turn) : Prop where
  tasks : after.session.tasks = before.session.tasks
  started : after.session.started = before.session.started
  finished : after.finished = before.finished
  config : after.session.config = before.session.config
  pending : ∀ hash, after.session.registry.pending.get? hash =
    before.session.registry.pending.get? hash
  inFlight : ∀ {hash entry}, after.session.registry.inFlight.entries.get? hash = some entry →
    before.session.registry.inFlight.entries.get? hash = some entry
  sent : before.sent ⊆ after.sent
  aligned : before.session.registry.Aligned → after.session.registry.Aligned

theorem SameCalls.refl (turn : Turn) : SameCalls turn turn :=
  ⟨rfl, rfl, rfl, rfl, fun _ => rfl, id, List.Subset.refl _, id⟩

theorem sameCalls_modify {change : Session → Session}
    (registry : (change turn.session).registry = turn.session.registry)
    (tasks : (change turn.session).tasks = turn.session.tasks)
    (started : (change turn.session).started = turn.session.started) :
    SameCalls (turn.modify change) turn where
  tasks := tasks
  started := started
  finished := rfl
  config := congrArg Registry.config registry
  pending hash := congrArg (·.pending.get? hash) registry
  inFlight {hash entry} found := by
    change (change turn.session).registry.inFlight.entries.get? hash = some entry at found
    rwa [registry] at found
  sent := List.Subset.refl _
  aligned h := by
    change (change turn.session).registry.Aligned
    rwa [registry]

structure Entered (call : CallId) (ticket : Ticket) (after before : Turn) : Prop where
  tasks : after.session.tasks = before.session.tasks
  started : after.session.started = before.session.started
  finished : after.finished = before.finished
  config : after.session.config = before.session.config
  unused : before.session.registry.pending.get? ticket.hash = none
  pending : after.session.registry.pending = before.session.registry.pending.insert ticket.hash call
  inFlight : ∀ {hash entry}, after.session.registry.inFlight.entries.get? hash = some entry →
    if hash = ticket.hash then entry.value = ticket.request
    else before.session.registry.inFlight.entries.get? hash = some entry
  sent : before.sent ⊆ after.sent
  aligned : before.session.registry.Aligned → after.session.registry.Aligned

structure Accepted (call : CallId) (query : Query) (ticket : Ticket) (after before : Turn) : Prop
    extends Entered call ticket after before where
  request : ticket.request = ⟨query.service, query.function, before.session.now⟩
  frame_sent : query.frame before.session.config.protocolVersion (some ticket.hash) ∈ after.sent

theorem Entered.sameCalls {after between before : Turn} {ticket : Ticket}
    (h : Entered call ticket between before)
    (registry : after.session.registry = between.session.registry)
    (same : SameCalls after between) : Entered call ticket after before where
  tasks := same.tasks.trans h.tasks
  started := same.started.trans h.started
  finished := same.finished.trans h.finished
  config := same.config.trans h.config
  unused := h.unused
  pending := registry ▸ h.pending
  inFlight found := h.inFlight (same.inFlight found)
  sent := List.Subset.trans h.sent same.sent
  aligned sound := same.aligned (h.aligned sound)

theorem entered_register (call : CallId) (request : RequestInfo) {hash : Hash}
    (hashes : HashSource)
    (unused : turn.session.registry.pending.get? hash = none)
    (isOpen : turn.session.registry.inFlight.closed = false) :
    Entered call ⟨hash, request⟩
      (turn.withRegistry
        { turn.session.registry with
          hashes
          inFlight := (turn.session.registry.inFlight.put hash request request.sentAt).2
          pending := turn.session.registry.pending.insert hash call }) turn where
  tasks := rfl
  started := rfl
  finished := rfl
  config := rfl
  unused := unused
  pending := rfl
  inFlight found := get?_of_put isOpen found
  sent := List.Subset.refl _
  aligned sound := sound.enter call hashes isOpen

theorem transmit_cases (turn : Turn) (frame : Bytes) :
    (∃ after cause, turn.transmit frame = (.error cause, after) ∧
      after.session.registry = turn.session.registry ∧ SameCalls after turn) ∨
    ∃ after, turn.transmit frame = (.ok (), after) ∧
      after.session.registry = turn.session.registry ∧ SameCalls after turn ∧
      after.sent = turn.sent ++ [frame] := by
  rw [transmit]
  split
  case h_1 fault sendFaults found =>
    exact .inl ⟨_, _, rfl, rfl, sameCalls_modify rfl rfl rfl⟩
  case h_2 =>
    dsimp only
    split
    case isTrue =>
      have kept : turn.sent ⊆ turn.sent ++ [frame] := List.subset_append_left ..
      exact .inr ⟨_, rfl, rfl, ⟨rfl, rfl, rfl, rfl, fun _ => rfl, id, kept, id⟩, rfl⟩
    case isFalse => exact .inl ⟨_, _, rfl, rfl, SameCalls.refl turn⟩

theorem notify_cases (turn : Turn) (query : Query) :
    ∃ after outcome, SameCalls after turn.begin.2 ∧ outcome.isPrompted = false ∧
      turn.notify query = after.finish turn.begin.1 outcome := by
  have sent := transmit_cases turn.begin.2
    (query.frame turn.begin.2.session.config.protocolVersion none)
  rw [notify]
  dsimp only
  rcases sent with ⟨after, cause, failed, -, same⟩ | ⟨after, sent, -, same, -⟩
  · rw [failed]
    exact ⟨after, _, same, rfl, rfl⟩
  · rw [sent]
    exact ⟨after, _, same, rfl, rfl⟩

theorem tell_of_awaiting {aim : Aim} {ticket : Ticket} {result : Except CallError Reply}
    (h : turn.session.stage? call = some (.awaiting aim ticket)) :
    turn.tell call result = turn.await ⟨call, .told aim ticket result⟩ := by
  rw [tell, h]

theorem registry_tell (turn : Turn) (call : CallId) (result : Except CallError Reply) :
    (turn.tell call result).session.registry = turn.session.registry := by
  rw [tell]
  split <;> rfl

/-- Nobody waits under the hash, so that only a request in flight can go. -/
theorem sameCalls_unregister {hash : Hash}
    (unknown : turn.session.registry.pending.get? hash = none) :
    SameCalls (turn.withRegistry (turn.session.registry.forget hash turn.session.now).2) turn where
  tasks := rfl
  started := rfl
  finished := rfl
  config := rfl
  pending other := by
    change (turn.session.registry.pending.erase hash).get? other = _
    rw [Table.erase_eq_self (Table.get?_eq_none_iff.mp unknown)]
  inFlight := get?_of_remove hash turn.session.now
  sent := List.Subset.refl _
  aligned sound := sound.forget hash turn.session.now

theorem forget_eq {ticket : Ticket}
    (h : ∀ other, turn.session.registry.pending.get? ticket.hash = some other → other = call) :
    turn.forget call ticket =
      turn.withRegistry (turn.session.registry.forget ticket.hash turn.session.now).2 := by
  rw [forget]
  dsimp only [Registry.forget]
  cases found : turn.session.registry.pending.get? ticket.hash with
  | none => rfl
  | some other => exact if_pos (h other found)

theorem forget_of_other {ticket : Ticket} {other : CallId}
    (h : turn.session.registry.pending.get? ticket.hash = some other) (differs : other ≠ call) :
    turn.forget call ticket =
      (turn.withRegistry (turn.session.registry.forget ticket.hash turn.session.now).2).tell other
        (.error .channelClosed) := by
  simp only [forget, Registry.forget, h, if_neg differs]

theorem Entered.sameCalls_forget {before after : Turn} {ticket : Ticket}
    (h : Entered call ticket after before) : SameCalls (after.forget call ticket) before := by
  -- Nothing happened since the call entered, so the hash is still its own.
  have owner : after.session.registry.pending.get? ticket.hash = some call := by
    rw [h.pending, Table.get?_insert, if_pos rfl]
  rw [forget_eq fun other found => (Option.some.inj (owner.symm.trans found)).symm]
  refine ⟨h.tasks, h.started, h.finished, h.config, ?_, ?_, h.sent,
    fun sound => (h.aligned sound).forget ticket.hash after.session.now⟩
  · intro hash
    change (after.session.registry.pending.erase ticket.hash).get? hash = _
    rw [h.pending, Table.get?_erase, Table.get?_insert]
    split
    case isTrue same => rw [same, h.unused]
    case isFalse => rfl
  · intro hash entry found
    change
      (after.session.registry.inFlight.remove ticket.hash after.session.now).2.entries.get? hash =
      some entry at found
    rw [get?_remove] at found
    split at found
    · cases found
    case isFalse differs =>
      have old := h.inFlight found
      rwa [if_neg differs] at old

theorem fst_transmit {other : Turn} (faults : other.session.sendFaults = turn.session.sendFaults)
    (node : other.session.node = turn.session.node) (frame : Bytes) :
    (other.transmit frame).1 = (turn.transmit frame).1 := by
  rw [transmit, transmit, faults, node]
  split
  · rfl
  · dsimp only
    split <;> rfl

def refusal? (turn : Turn) (query : Query) : Option CallError :=
  let session := turn.session
  let request : RequestInfo := ⟨query.service, query.function, session.now⟩
  match (session.registry.register session.started request).1 with
  | .error error => some error
  | .ok ticket =>
    match (turn.transmit (query.frame session.config.protocolVersion (some ticket.hash))).1 with
    | .error cause => some (.transport cause)
    | .ok () => if session.config.requestTimeout = 0 then some .timeout else none

theorem refusal?_begin (turn : Turn) (query : Query) :
    turn.begin.2.refusal? query = turn.refusal? query := by
  have faults : turn.begin.2.session.sendFaults = turn.session.sendFaults := rfl
  have result (frame : Bytes) : (turn.begin.2.transmit frame).1 = (turn.transmit frame).1 :=
    fst_transmit faults rfl frame
  rw [refusal?, refusal?, Registry.fst_register _ turn.begin.2.session.started turn.session.started]
  simp only [result]
  rfl

theorem request_result (turn : Turn) (call : CallId) (aim : Aim) (query : Query) :
    (∃ after error, turn.refusal? query = some error ∧ SameCalls after turn ∧
      error ≠ .channelClosed ∧ turn.request call aim query = after.finish call (.failed error)) ∨
    ∃ after ticket, turn.refusal? query = none ∧ Accepted call query ticket after turn ∧
      after.sent = turn.sent ++
        [query.frame turn.session.config.protocolVersion (some ticket.hash)] ∧
      turn.session.config.requestTimeout ≠ 0 ∧
      turn.request call aim query = after.await ⟨call, .awaiting aim ticket⟩ := by
  have drawn := Registry.register_cases turn.session.registry call
    ⟨query.service, query.function, turn.session.now⟩
  rw [request, refusal?]
  dsimp only
  rw [Registry.fst_register _ turn.session.started call]
  rcases drawn with
    ⟨error, hashes, refused, answered⟩ | ⟨hash, hashes, unused, isOpen, registered⟩
  · rw [refused]
    have same : SameCalls (turn.withRegistry { turn.session.registry with hashes }) turn :=
      ⟨rfl, rfl, rfl, rfl, fun _ => rfl, id, List.Subset.refl _,
        fun sound => ⟨sound.nodup, sound.registered⟩⟩
    exact .inl ⟨_, error, rfl, same, answered, rfl⟩
  · have entered := entered_register call ⟨query.service, query.function, turn.session.now⟩
      hashes unused isOpen
    rw [registered]
    dsimp only
    generalize registers : turn.withRegistry _ = registered' at entered ⊢
    have result (frame : Bytes) : (registered'.transmit frame).1 = (turn.transmit frame).1 :=
      fst_transmit (by rw [← registers]; rfl) (by rw [← registers]; rfl) frame
    rw [← result]
    rcases transmit_cases registered' (query.frame turn.session.config.protocolVersion (some hash))
      with ⟨after, cause, failed, registry, same⟩ | ⟨after, sent, registry, same, frames⟩
    · rw [failed]
      have forgotten := (entered.sameCalls registry same).sameCalls_forget
      exact .inl ⟨_, .transport cause, rfl, forgotten, nofun, rfl⟩
    · rw [sent]
      dsimp only
      split
      case isTrue =>
        have forgotten := (entered.sameCalls registry same).sameCalls_forget
        exact .inl ⟨_, .timeout, rfl, forgotten, nofun, rfl⟩
      case isFalse patient =>
        have last : after.sent = turn.sent ++
            [query.frame turn.session.config.protocolVersion (some hash)] := by
          rw [frames, ← registers]
          rfl
        refine .inr ⟨after, _, rfl, ⟨entered.sameCalls registry same, rfl, ?_⟩, last, patient, rfl⟩
        rw [last]
        exact List.mem_append_right _ (List.mem_singleton_self _)

theorem request_cases (turn : Turn) (call : CallId) (aim : Aim) (query : Query) :
    (∃ after error, SameCalls after turn ∧ error ≠ .channelClosed ∧
      turn.request call aim query = after.finish call (.failed error)) ∨
    ∃ after ticket, Accepted call query ticket after turn ∧
      turn.request call aim query = after.await ⟨call, .awaiting aim ticket⟩ := by
  rcases request_result turn call aim query with
    ⟨after, error, -, refused⟩ | ⟨after, ticket, -, accepted, -, -, waits⟩
  · exact .inl ⟨after, error, refused⟩
  · exact .inr ⟨after, ticket, accepted, waits⟩

end Turn

end NodeProtocol.Client
