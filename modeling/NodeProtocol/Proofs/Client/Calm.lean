import NodeProtocol.Proofs.Client.Strides

namespace NodeProtocol.Client

open Cache

namespace Session

/-- The client was closed: its pump is gone, nothing is in flight and nothing can get there. -/
structure Shut (session : Session) : Prop where
  closed : session.registry.inFlight.closed = true
  empty : ∀ hash, session.inFlight? hash = none
  deaf : session.registry.receiving = false

structure Free (session : Session) (hash : Hash) : Prop where
  caller : session.caller? hash = none
  inFlight : session.inFlight? hash = none

end Session

def Hashless (frame : Bytes) : Prop :=
  ∃ request, Request.parse frame = .ok request ∧ request.header.hash = none

theorem hashless_frame (query : Query) (version : UInt8) : Hashless (query.frame version none) :=
  ⟨_, rfl, rfl⟩

namespace Turn

variable {turn before between after : Turn}

structure Barred (before after : Turn) : Prop where
  shut : after.session.Shut
  hashes : after.session.registry.hashes = before.session.registry.hashes
  caller : ∀ {hash call}, after.session.caller? hash = some call →
    before.session.caller? hash = some call
  sent : ∀ frame ∈ after.sent, frame ∈ before.sent ∨ Hashless frame

namespace Barred

theorem refl (shut : turn.session.Shut) : Barred turn turn :=
  ⟨shut, rfl, id, fun _ => .inl⟩

theorem trans (h : Barred before between) (h' : Barred between after) : Barred before after where
  shut := h'.shut
  hashes := h'.hashes.trans h.hashes
  caller found := h.caller (h'.caller found)
  sent frame member := (h'.sent frame member).elim (h.sent frame) .inr

theorem of_eq (shut : before.session.Shut)
    (registry : after.session.registry = before.session.registry)
    (sent : after.sent = before.sent) : Barred before after where
  shut := by
    refine ⟨registry ▸ shut.closed, fun hash => ?_, registry ▸ shut.deaf⟩
    rw [Session.inFlight?, registry]
    exact shut.empty hash
  hashes := registry ▸ rfl
  caller found := by rwa [Session.caller?, registry] at found
  sent frame member := .inl (sent ▸ member)

theorem of_shrink {pending : Table Hash CallId} {inFlight : Cache Hash RequestInfo}
    (shut : turn.session.Shut)
    (settings : SameSettings inFlight turn.session.registry.inFlight)
    (old : ∀ {hash entry}, inFlight.entries.get? hash = some entry →
      turn.session.inFlight? hash = some entry)
    (caller : ∀ {hash call}, pending.get? hash = some call →
      turn.session.caller? hash = some call) :
    Barred turn (turn.withRegistry { turn.session.registry with pending, inFlight }) where
  shut := by
    refine ⟨settings.closed.trans shut.closed, fun hash => ?_, shut.deaf⟩
    rw [Option.eq_none_iff_forall_not_mem]
    intro entry found
    cases (shut.empty hash).symm.trans (old found)
  hashes := rfl
  caller := caller
  sent _ := .inl

end Barred

structure Calm (before after : Turn) : Prop where
  now : after.session.now = before.session.now
  config : after.session.config = before.session.config
  receiving : after.session.registry.receiving = before.session.registry.receiving
  sent : after.sent = before.sent
  finished : after.finished = before.finished
  awaiting : ∀ {call aim ticket}, ⟨call, .awaiting aim ticket⟩ ∈ after.session.tasks →
    ⟨call, .awaiting aim ticket⟩ ∈ before.session.tasks
  barred : before.session.Shut → Barred before after

namespace Calm

theorem refl (turn : Turn) : Calm turn turn :=
  ⟨rfl, rfl, rfl, rfl, rfl, id, .refl⟩

theorem trans (h : Calm before between) (h' : Calm between after) : Calm before after where
  now := h'.now.trans h.now
  config := h'.config.trans h.config
  receiving := h'.receiving.trans h.receiving
  sent := h'.sent.trans h.sent
  finished := h'.finished.trans h.finished
  awaiting member := h.awaiting (h'.awaiting member)
  barred shut := (h.barred shut).trans (h'.barred (h.barred shut).shut)

theorem of_open {registry : Registry} (isOpen : ¬ turn.session.registry.inFlight.closed)
    (config : registry.config = turn.session.registry.config)
    (receiving : registry.receiving = turn.session.registry.receiving) :
    Calm turn (turn.withRegistry registry) :=
  ⟨rfl, config, receiving, rfl, rfl, id, fun shut => absurd shut.closed isOpen⟩

end Calm

theorem calm_modify {change : Session → Session}
    (registry : (change turn.session).registry = turn.session.registry)
    (tasks : (change turn.session).tasks = turn.session.tasks)
    (now : (change turn.session).now = turn.session.now) : Calm turn (turn.modify change) where
  now := now
  config := congrArg Registry.config registry
  receiving := congrArg Registry.receiving registry
  sent := rfl
  finished := rfl
  awaiting := by
    intro call aim ticket member
    change _ ∈ (change turn.session).tasks at member
    rwa [tasks] at member
  barred shut := .of_eq shut registry rfl

theorem calm_await (turn : Turn) (call : CallId) {stage : Stage}
    (still : ∀ {aim ticket}, stage ≠ .awaiting aim ticket) :
    Calm turn (turn.await ⟨call, stage⟩) where
  now := rfl
  config := rfl
  receiving := rfl
  sent := rfl
  finished := rfl
  awaiting := by
    intro other aim ticket member
    rcases mem_await.mp member with ⟨old, -⟩ | equal
    · exact old
    · exact absurd (congrArg Task.stage equal).symm still
  barred shut := .of_eq shut rfl rfl

theorem calm_tell (turn : Turn) (call : CallId) (result : Except CallError Reply) :
    Calm turn (turn.tell call result) := by
  rw [tell]
  split
  · exact calm_await turn call (by simp)
  · exact .refl turn

theorem calm_unregister (turn : Turn) (hash : Hash) :
    Calm turn
      (turn.withRegistry (turn.session.registry.forget hash turn.session.now).2) where
  now := rfl
  config := rfl
  receiving := rfl
  sent := rfl
  finished := rfl
  awaiting := id
  barred shut := by
    refine .of_shrink shut (sameSettings_take ..) get?_of_take ?_
    intro other call found
    rw [Table.get?_erase] at found
    split at found
    · cases found
    · exact found

theorem calm_forget (turn : Turn) (call : CallId) (ticket : Ticket) :
    Calm turn (turn.forget call ticket) := by
  have taken := calm_unregister turn ticket.hash
  rw [forget]
  dsimp only
  split
  · split
    · exact taken
    · exact taken.trans (calm_tell ..)
  · exact taken

theorem free_forget (turn : Turn) (call : CallId) (ticket : Ticket) :
    (turn.forget call ticket).session.Free ticket.hash := by
  have taken : (turn.forget call ticket).session.registry =
      (turn.session.registry.forget ticket.hash turn.session.now).2 := by
    rw [forget]
    dsimp only
    split
    · split
      · rfl
      · exact registry_tell ..
    · rfl
  constructor
  · rw [Session.caller?, taken]
    exact (Table.get?_erase ..).trans (if_pos rfl)
  · rw [Session.inFlight?, taken]
    exact (get?_remove _ ticket.hash _ turn.session.now).trans (if_pos rfl)

theorem free_finish {hash : Hash} (h : turn.session.Free hash) (call : CallId) (outcome : Outcome) :
    (turn.finish call outcome).session.Free hash :=
  ⟨h.caller, h.inFlight⟩

theorem calm_transmit (turn : Turn) (frame : Bytes) :
    (∃ after cause, turn.transmit frame = (.error cause, after) ∧ Calm turn after) ∨
    ∃ after, turn.transmit frame = (.ok (), { after with sent := turn.sent ++ [frame] }) ∧
      Calm turn after := by
  rw [transmit]
  split
  case h_1 => exact .inl ⟨_, _, rfl, calm_modify rfl rfl rfl⟩
  case h_2 =>
    dsimp only
    split
    case isTrue => exact .inr ⟨turn.modify _, rfl, calm_modify rfl rfl rfl⟩
    case isFalse => exact .inl ⟨_, _, rfl, .refl turn⟩

theorem calm_deliver (turn : Turn) (raw : Bytes) : Calm turn (turn.deliver raw).2 := by
  by_cases reads : turn.session.reads
  · rw [deliver_of_reads reads]
    cases named : (Response.parse raw).hash with
    | none =>
        rw [Registry.receive_of_no_hash named]
        exact .refl turn
    | some hash =>
        have taken := calm_unregister turn hash
        cases known : turn.session.registry.pending.get? hash with
        | none =>
            rw [Registry.receive_of_unknown named known]
            exact taken
        | some call =>
            rw [Registry.receive_of_pending named known]
            exact taken.trans (calm_tell ..)
  · rw [deliver_of_not_reads reads]
    exact .refl turn

end Turn

end NodeProtocol.Client
