import NodeProtocol.Proofs.Cache.Retention
import NodeProtocol.Proofs.Client.Actions

namespace NodeProtocol.Client

open Cache

namespace Registry

structure Sound (registry : Registry) : Prop where
  consistent : registry.inFlight.Consistent
  capacity : registry.inFlight.capacity = registry.config.cache.capacity
  lifeSpan : registry.inFlight.lifeSpan = registry.config.cache.lifeSpan
  room : 0 < registry.config.cache.capacity

theorem Sound.of_inFlight {before after : Registry} (h : before.Sound)
    (config : after.config = before.config)
    (settings : SameSettings after.inFlight before.inFlight)
    (consistent : after.inFlight.Consistent) : after.Sound where
  consistent := consistent
  capacity := by rw [settings.capacity, h.capacity, config]
  lifeSpan := by rw [settings.lifeSpan, h.lifeSpan, config]
  room := config ▸ h.room

end Registry

namespace Session

def registrations (session : Session) : Nat :=
  session.registry.inFlight.nextTick

def inFlight? (session : Session) (hash : Hash) : Option (Cache.Entry RequestInfo) :=
  session.registry.inFlight.entries.get? hash

def caller? (session : Session) (hash : Hash) : Option CallId :=
  session.registry.pending.get? hash

structure Quiet (before after : Session) : Prop where
  now : after.now = before.now
  config : after.config = before.config
  registrations : after.registrations = before.registrations
  receiving : after.registry.receiving → before.registry.receiving
  sound : before.registry.Sound → after.registry.Sound
  kept : after.registry.receiving → ∀ {hash call}, after.caller? hash = some call →
    before.caller? hash = some call ∧ after.inFlight? hash = before.inFlight? hash

namespace Quiet

variable {first second third : Session}

theorem of_eq (registry : second.registry = first.registry) (now : second.now = first.now) :
    Quiet first second where
  now := now
  config := congrArg Registry.config registry
  registrations := congrArg (·.inFlight.nextTick) registry
  receiving h := registry ▸ h
  sound h := registry ▸ h
  kept _ _ _ found := by
    rw [caller?, registry] at found
    exact ⟨found, by rw [inFlight?, inFlight?, registry]⟩

theorem refl (session : Session) : Quiet session session :=
  .of_eq rfl rfl

theorem trans (h : Quiet first second) (h' : Quiet second third) : Quiet first third where
  now := h'.now.trans h.now
  config := h'.config.trans h.config
  registrations := h'.registrations.trans h.registrations
  receiving reads := h.receiving (h'.receiving reads)
  sound sound := h'.sound (h.sound sound)
  kept reads _ _ found := by
    obtain ⟨between, same⟩ := h'.kept reads found
    obtain ⟨old, same'⟩ := h.kept (h'.receiving reads) between
    exact ⟨old, same.trans same'⟩

theorem of_deaf (now : second.now = first.now) (config : second.config = first.config)
    (registrations : second.registrations = first.registrations)
    (sound : first.registry.Sound → second.registry.Sound)
    (deaf : second.registry.receiving = false) : Quiet first second where
  now := now
  config := config
  registrations := registrations
  receiving reads := by rw [deaf] at reads; cases reads
  sound := sound
  kept reads := by rw [deaf] at reads; cases reads

theorem of_remove {hash : Hash} {now : Nat} {pending : Table Hash CallId}
    (others : ∀ {other call}, pending.get? other = some call →
      other ≠ hash ∧ first.caller? other = some call) :
    Quiet first { first with registry := { first.registry with
      pending
      inFlight := (first.registry.inFlight.remove hash now).2 } } where
  now := rfl
  config := rfl
  registrations := nextTick_take ..
  receiving := id
  sound h := h.of_inFlight rfl (sameSettings_take ..) (h.consistent.remove hash now)
  kept _ _ _ found := by
    obtain ⟨differs, old⟩ := others found
    exact ⟨old, (get?_remove first.registry.inFlight hash _ now).trans (if_neg differs)⟩

end Quiet

structure Stays (hash : Hash) (call : CallId) (before after : Session) : Prop where
  caller : before.caller? hash = some call
  old : ∀ {entry}, after.inFlight? hash = some entry → before.inFlight? hash = some entry
  kept : ∀ {entry}, before.inFlight? hash = some entry → after.now < entry.expiresAt →
    after.registrations ≤ entry.tick + before.config.cache.capacity →
    after.inFlight? hash = some entry

structure Enters (hash : Hash) (before after : Session) : Prop where
  unused : before.caller? hash = none
  now : after.now = before.now
  registrations : after.registrations = before.registrations + 1
  entry : ∃ entry, after.inFlight? hash = some entry ∧ entry.tick = before.registrations ∧
    entry.expiresAt = before.now + before.config.cache.lifeSpan

structure Stride (before after : Session) : Prop where
  now_le : before.now ≤ after.now
  config : after.config = before.config
  registrations_le : before.registrations ≤ after.registrations
  receiving : after.registry.receiving → before.registry.receiving
  sound : after.registry.Sound
  origin : after.registry.receiving → ∀ {hash call}, after.caller? hash = some call →
    Stays hash call before after ∨ Enters hash before after

namespace Stride

variable {first second third : Session}

theorem of_quiet (quiet : Quiet first second) (sound : first.registry.Sound) :
    Stride first second where
  now_le := Nat.le_of_eq quiet.now.symm
  config := quiet.config
  registrations_le := Nat.le_of_eq quiet.registrations.symm
  receiving := quiet.receiving
  sound := quiet.sound sound
  origin reads _ _ found := by
    obtain ⟨caller, same⟩ := quiet.kept reads found
    exact .inl ⟨caller, fun here => same ▸ here, fun here _ _ => same.trans here⟩

theorem quiet (h : Stride first second) (quiet : Quiet second third) : Stride first third where
  now_le := quiet.now ▸ h.now_le
  config := quiet.config.trans h.config
  registrations_le := quiet.registrations ▸ h.registrations_le
  receiving reads := h.receiving (quiet.receiving reads)
  sound := quiet.sound h.sound
  origin reads hash call found := by
    obtain ⟨between, same⟩ := quiet.kept reads found
    rcases h.origin (quiet.receiving reads) between with stays | enters
    · refine .inl ⟨stays.caller, fun here => stays.old (same ▸ here), ?_⟩
      rw [quiet.now, quiet.registrations, same]
      exact stays.kept
    · refine .inr ⟨enters.unused, quiet.now.trans enters.now,
        quiet.registrations.trans enters.registrations, ?_⟩
      rw [same]
      exact enters.entry

theorem after_eq (registry : second.registry = first.registry) (now : second.now = first.now)
    (h : Stride second third) : Stride first third := by
  obtain ⟨_, _⟩ := first
  obtain ⟨_, _⟩ := second
  cases registry
  cases now
  exact ⟨h.now_le, h.config, h.registrations_le, h.receiving, h.sound, fun reads _ _ found =>
    (h.origin reads found).imp (fun stays => ⟨stays.caller, stays.old, stays.kept⟩)
      fun enters => ⟨enters.unused, enters.now, enters.registrations, enters.entry⟩⟩

theorem register {hash : Hash} {call : CallId} {request : RequestInfo} {hashes : HashSource}
    (sound : first.registry.Sound) (isOpen : first.registry.inFlight.closed = false)
    (unused : first.caller? hash = none) (sentAt : request.sentAt = first.now) :
    Stride first { first with registry := { first.registry with
      hashes
      inFlight := (first.registry.inFlight.put hash request request.sentAt).2
      pending := first.registry.pending.insert hash call } } where
  now_le := Nat.le_refl _
  config := rfl
  registrations_le := Nat.le_trans (Nat.le_succ _) (Nat.le_of_eq (nextTick_put isOpen).symm)
  receiving := id
  sound := by
    refine sound.of_inFlight rfl ?_ (sound.consistent.put ..)
    change SameSettings (first.registry.inFlight.put hash request request.sentAt).2 _
    rw [put, isOpen]
    exact sameSettings_insert ..
  origin _ other caller found := by
    change (first.registry.pending.insert hash call).get? other = some caller at found
    rw [Table.get?_insert] at found
    have ticks : (first.registry.inFlight.put hash request request.sentAt).2.nextTick =
        first.registrations + 1 := nextTick_put isOpen
    split at found
    case isTrue equal =>
      subst equal
      obtain ⟨entry, here, tick, expires⟩ := sound.consistent.get?_put_self isOpen
        (sound.capacity ▸ sound.room) other request request.sentAt
      rw [sentAt, sound.lifeSpan] at expires
      exact .inr ⟨unused, rfl, ticks, entry, here, tick, expires⟩
    case isFalse differs =>
      refine .inl ⟨found, ?_, ?_⟩
      · intro entry here
        have kept := get?_of_put isOpen here
        rwa [if_neg differs] at kept
      · intro entry here _ recent
        refine sound.consistent.get?_put_of_recent isOpen here differs ?_
        rw [sound.capacity]
        exact (Nat.le_of_eq ticks.symm).trans recent

theorem clock {now : Nat} {inFlight : Cache Hash RequestInfo} (sound : first.registry.Sound)
    (later : first.now ≤ now) (swept : Swept now first.registry.inFlight inFlight) :
    Stride first { first with now, registry := { first.registry with inFlight } } where
  now_le := later
  config := rfl
  registrations_le := Nat.le_of_eq swept.nextTick.symm
  receiving := id
  sound := sound.of_inFlight rfl swept.settings (swept.consistent sound.consistent)
  origin _ _ _ found := .inl ⟨found, swept.old, fun here alive _ => swept.live here alive⟩

end Stride

end Session

namespace Turn

open Session (Quiet Stride)

variable {turn : Turn} {call : CallId}

theorem quiet_tell (turn : Turn) (call : CallId) (result : Except CallError Reply) :
    Quiet turn.session (turn.tell call result).session := by
  rw [tell]
  split
  · exact .of_eq rfl rfl
  · exact .refl _

theorem quiet_tell_all (calls : List CallId) (turn : Turn) (result : Except CallError Reply) :
    Quiet turn.session (calls.foldl (·.tell · result) turn).session := by
  induction calls generalizing turn with
  | nil => exact .refl _
  | cons call calls ih => exact (quiet_tell turn call result).trans (ih _)

theorem quiet_unregister (turn : Turn) (hash : Hash) :
    Quiet turn.session
      (turn.withRegistry (turn.session.registry.forget hash turn.session.now).2).session := by
  refine .of_remove ?_
  intro other caller found
  rw [Table.get?_erase] at found
  split at found
  · cases found
  case isFalse differs => exact ⟨differs, found⟩

theorem quiet_forget (turn : Turn) (call : CallId) (ticket : Ticket) :
    Quiet turn.session (turn.forget call ticket).session := by
  have taken := quiet_unregister turn ticket.hash
  rw [forget]
  dsimp only
  split
  · split
    · exact taken
    · exact taken.trans (quiet_tell ..)
  · exact taken

theorem quiet_transmit (turn : Turn) (frame : Bytes) :
    Quiet turn.session (turn.transmit frame).2.session := by
  rw [transmit]
  split
  · exact .of_eq rfl rfl
  · dsimp only
    split
    · exact .of_eq rfl rfl
    · exact .refl _

theorem quiet_forget_finish (turn : Turn) (call : CallId) (ticket : Ticket) (outcome : Outcome) :
    Quiet turn.session ((turn.forget call ticket).finish call outcome).session :=
  (quiet_forget turn call ticket).trans (.of_eq rfl rfl)

theorem stride_request (sound : turn.session.registry.Sound) (call : CallId) (aim : Aim)
    (query : Query) : Stride turn.session (turn.request call aim query).session := by
  have drawn := Registry.register_cases turn.session.registry call
    ⟨query.service, query.function, turn.session.now⟩
  rw [request]
  rcases drawn with ⟨error, hashes, refused, -⟩ | ⟨hash, hashes, unused, isOpen, registered⟩
  · rw [refused]
    have drew : Quiet turn.session
        ((turn.withRegistry { turn.session.registry with hashes }).finish call
          (.failed error)).session :=
      ⟨rfl, rfl, rfl, id, fun sound => ⟨sound.1, sound.2, sound.3, sound.4⟩,
        fun _ _ _ found => ⟨found, rfl⟩⟩
    exact .of_quiet drew sound
  · have entered : Stride turn.session (turn.withRegistry { turn.session.registry with
        hashes
        inFlight := (turn.session.registry.inFlight.put hash
          ⟨query.service, query.function, turn.session.now⟩ turn.session.now).2
        pending := turn.session.registry.pending.insert hash call }).session :=
      .register sound isOpen unused rfl
    rw [registered]
    dsimp only
    have stride := entered.quiet (quiet_transmit _
      (query.frame turn.session.config.protocolVersion (some hash)))
    split
    · exact stride.quiet (quiet_forget_finish ..)
    · split
      · exact stride.quiet (quiet_forget_finish ..)
      · exact stride.quiet (.of_eq rfl rfl)

theorem stride_poll (sound : turn.session.registry.Sound) (call : CallId) (query : Query)
    (pollsLeft : Nat) : Stride turn.session (turn.poll call query pollsLeft).session := by
  cases pollsLeft with
  | zero => exact .of_quiet (.of_eq rfl rfl) sound
  | succ pollsLeft => exact stride_request sound call _ query

theorem stride_useReply (sound : turn.session.registry.Sound) (call : CallId) (aim : Aim)
    (reply : Reply) : Stride turn.session (turn.useReply call aim reply).session := by
  have quiet {after : Session} (registry : after.registry = turn.session.registry)
      (now : after.now = turn.session.now) : Stride turn.session after :=
    .of_quiet (.of_eq registry now) sound
  cases aim with
  | reply => exact quiet rfl rfl
  | tokens types =>
      rw [useReply]
      split <;> exact quiet rfl rfl
  | terminalStatus query pollsLeft =>
      rw [useReply]
      split
      · exact quiet rfl rfl
      · split
        · exact stride_poll sound call ..
        · exact quiet rfl rfl

theorem stride_wake (sound : turn.session.registry.Sound) (call : CallId) :
    Stride turn.session (turn.wake call).session := by
  rw [wake]
  split
  · split
    · exact stride_useReply sound call ..
    · exact .of_quiet (quiet_forget_finish ..) sound
    · exact .of_quiet (.of_eq rfl rfl) sound
  · exact .of_quiet (.refl _) sound

theorem stride_expire (sound : turn.session.registry.Sound) (call : CallId) :
    Stride turn.session (turn.expire call).session := by
  rw [expire]
  split
  · exact .of_quiet (quiet_forget_finish ..) sound
  · exact stride_wake sound call
  · exact stride_poll sound call ..
  · exact .of_quiet (.refl _) sound

theorem quiet_abort (turn : Turn) (call : CallId) :
    Quiet turn.session (turn.abort call).session := by
  rw [abort]
  split
  · exact quiet_forget_finish ..
  · exact quiet_forget_finish ..
  · exact .of_eq rfl rfl
  · exact .refl _

theorem quiet_stopReceiving (turn : Turn) (error : CallError) :
    Quiet turn.session (turn.stopReceiving error).session := by
  rw [stopReceiving]
  split
  · have stopped : Quiet turn.session
        (turn.withRegistry turn.session.registry.stop.2).session :=
      .of_deaf rfl rfl rfl (fun sound => ⟨sound.1, sound.2, sound.3, sound.4⟩) rfl
    exact stopped.trans (quiet_tell_all ..)
  · exact .refl _

theorem quiet_close (turn : Turn) : Quiet turn.session turn.close.session := by
  rw [close, stopReceiving]
  split
  case isTrue =>
    have stopped : Quiet turn.session
        (turn.withRegistry turn.session.registry.clearInFlight.stop.2).session :=
      .of_deaf rfl rfl rfl (fun sound => ⟨.clear, sound.2, sound.3, sound.4⟩) rfl
    exact stopped.trans (quiet_tell_all ..)
  case isFalse deaf =>
    exact .of_deaf rfl rfl rfl (fun sound => ⟨.clear, sound.2, sound.3, sound.4⟩)
      (Bool.eq_false_iff.mpr deaf)

theorem quiet_deliver (turn : Turn) (raw : Bytes) :
    Quiet turn.session (turn.deliver raw).2.session := by
  by_cases reads : turn.session.reads
  · rw [deliver_of_reads reads]
    cases named : (Response.parse raw).hash with
    | none =>
        rw [Registry.receive_of_no_hash named]
        exact .of_eq rfl rfl
    | some hash =>
        have taken := quiet_unregister turn hash
        cases known : turn.session.registry.pending.get? hash with
        | none =>
            rw [Registry.receive_of_unknown named known]
            exact taken
        | some call =>
            rw [Registry.receive_of_pending named known]
            exact taken.trans (quiet_tell ..)
  · rw [deliver_of_not_reads reads]
    exact .refl _

theorem quiet_notify (turn : Turn) (query : Query) :
    Quiet turn.session (turn.notify query).session := by
  have began : Quiet turn.session turn.begin.2.session := .of_eq rfl rfl
  have sent := began.trans (quiet_transmit turn.begin.2
    (query.frame turn.begin.2.session.config.protocolVersion none))
  rw [notify]
  dsimp only
  split <;> exact sent.trans (.of_eq rfl rfl)

theorem stride_of_begin {after : Session} (h : Stride turn.begin.2.session after) :
    Stride turn.session after := by
  have registry : turn.begin.2.session.registry = turn.session.registry := rfl
  have now : turn.begin.2.session.now = turn.session.now := rfl
  exact .after_eq registry now h

theorem stride_request_begin (sound : turn.session.registry.Sound) (aim : Aim) (query : Query) :
    Stride turn.session (turn.begin.2.request turn.begin.1 aim query).session := by
  have sound : turn.begin.2.session.registry.Sound := sound
  exact stride_of_begin (stride_request sound turn.begin.1 aim query)

theorem stride_pollStatus (sound : turn.session.registry.Sound) (query : Query) (maxPolls : Nat) :
    Stride turn.session (turn.pollStatus query maxPolls).session := by
  have sound : turn.begin.2.session.registry.Sound := sound
  exact stride_of_begin (stride_poll sound turn.begin.1 query maxPolls)

theorem stride_callAbi (sound : turn.session.registry.Sound) (service function : UInt8)
    (signature : Abi.Signature) (args : List Abi.Token) (returns : List Abi.Ty) :
    Stride turn.session (turn.callAbi service function signature args returns).session := by
  rw [callAbi]
  cases signature.encodeCall args with
  | ok payload => exact stride_request_begin sound ..
  | error cause => exact .of_quiet (.of_eq rfl rfl) sound

theorem stride_whileHeld {change : Turn → Turn} (sound : turn.session.registry.Sound)
    (stride : Stride turn.session (change turn).session) :
    Stride turn.session (turn.whileHeld change).session := by
  rw [whileHeld]
  split
  · exact stride
  · exact .of_quiet (.refl _) sound

theorem stride_act {action : Action} (sound : turn.session.registry.Sound)
    (prompt : ∀ duration,
      action ≠ .perform (.sleep duration) ∧ action ≠ .perform (.jump duration)) :
    Stride turn.session (turn.act action).2.session := by
  have quiet {after : Session} (quiet : Quiet turn.session after) : Stride turn.session after :=
    .of_quiet quiet sound
  cases action with
  | wake call => exact stride_wake sound call
  | perform step =>
      cases step with
      | call query => exact stride_whileHeld sound (stride_request_begin sound ..)
      | callAbi => exact stride_whileHeld sound (stride_callAbi sound ..)
      | notify query => exact stride_whileHeld sound (quiet (quiet_notify turn query))
      | pollStatus query maxPolls =>
          exact stride_whileHeld sound (stride_pollStatus sound ..)
      | abort call => exact quiet (quiet_abort turn call)
      | reply index body version service =>
          rw [act, perform]
          split
          · exact quiet (.refl _)
          · exact quiet (quiet_deliver ..)
      | deliver raw => exact quiet (quiet_deliver turn raw)
      | sleep duration => exact absurd rfl (prompt duration).1
      | jump duration => exact absurd rfl (prompt duration).2
      | close => exact stride_whileHeld sound (quiet (quiet_close turn))
      | releaseClient | failNextSend => exact quiet (.of_eq rfl rfl)
      | disconnectNode =>
          have cut : Quiet turn.session (turn.modify fun session =>
              { session with node := { session.node with connected := false } }).session :=
            .of_eq rfl rfl
          exact quiet (cut.trans (quiet_stopReceiving (turn.modify _) _))
      | failReceive error => exact quiet (quiet_stopReceiving ..)

end Turn

end NodeProtocol.Client
