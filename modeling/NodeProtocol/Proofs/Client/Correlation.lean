import NodeProtocol.Proofs.Client.Runs

/-!
# Replies reach the calls that asked for them

* `Unmatched`: a frame is too short, carries no hash or carries one that no call waits under.
* `correlation_safe`: after every run of a fresh client, with any source of hashes, an action
  answers a call only with a reply that the call was told since the pump handled the frame it had
  waited for. A frame changes one call at most, and no hash but its own in either table. One that
  is `Unmatched` changes no call and leaves every waiting call registered. No call finishes twice.
-/

namespace NodeProtocol

theorem Response.hash_parse_of_short {raw : Bytes} (h : raw.length < 3 + hashLength) :
    (Response.parse raw).hash = none := by
  unfold Response.parse
  split
  case h_1 version service flag rest =>
    split
    case isTrue => rfl
    case isFalse =>
      have short : ¬ 8 ≤ rest.length := by
        simp only [List.length_cons, hashLength] at h
        omega
      rw [BytesOf.split?, dif_neg short]
      rfl
  case h_2 => rfl

namespace Client

namespace Session

def Unmatched (session : Session) (raw : Bytes) : Prop :=
  raw.length < 3 + hashLength ∨ (Response.parse raw).hash = none ∨
    ∃ hash, (Response.parse raw).hash = some hash ∧
      ∀ call aim ticket, session.stage? call = some (.awaiting aim ticket) → ticket.hash ≠ hash

structure CorrelationSafe (session : Session) (past : List Action) (action : Action) : Prop where
  answered : ∀ {call outcome}, (call, outcome) ∈ ((session.after past).act action).1.finished →
    outcome.isAnswer → ∃ aim ticket reply,
      session.ToldSince past call aim ticket reply ∧ aim.Concludes reply outcome
  told : ∀ {call aim ticket reply},
    (session.after past).stage? call = some (.told aim ticket (.ok reply)) →
    session.ToldSince past call aim ticket reply
  distinct : ∀ {call aim ticket reply call' aim' ticket' reply'},
    session.RepliedBy past action call aim ticket reply →
    session.RepliedBy past action call' aim' ticket' reply' → call = call'
  single : ∀ {raw}, (session.after past).inbound? action = some raw →
    ((session.after past).act action).1.finished = [] ∧
    ∃ call, ∀ other ≠ call,
      (session.after (past ++ [action])).stage? other = (session.after past).stage? other
  once : (session.ended (past ++ [action])).Nodup
  gone : ∀ call ∈ session.ended (past ++ [action]),
    (session.after (past ++ [action])).stage? call = none
  ignored : ∀ {raw}, (session.after past).inbound? action = some raw →
    (session.after past).Unmatched raw →
    (∀ call, (session.after (past ++ [action])).stage? call = (session.after past).stage? call) ∧
    (∀ hash, (session.after (past ++ [action])).registry.pending.get? hash =
      (session.after past).registry.pending.get? hash) ∧
    ∀ {call aim ticket}, (session.after past).stage? call = some (.awaiting aim ticket) →
      (session.after (past ++ [action])).registry.inFlight.entries.get? ticket.hash =
        (session.after past).registry.inFlight.entries.get? ticket.hash
  elsewhere : ∀ {raw}, (session.after past).inbound? action = some raw →
    ∀ {hash}, (Response.parse raw).hash ≠ some hash →
      (session.after (past ++ [action])).registry.pending.get? hash =
        (session.after past).registry.pending.get? hash ∧
      (session.after (past ++ [action])).registry.inFlight.entries.get? hash =
        (session.after past).registry.inFlight.entries.get? hash

theorem StageSince.stands {session : Session} {past : List Action} {call : CallId} {stage : Stage}
    {cause : List Action → Action → Prop} (h : session.StageSince past call stage cause) :
    (session.after past).stage? call = some stage := by
  obtain ⟨early, action, late, rfl, -, stands⟩ := h
  exact stands late (List.prefix_refl late)

theorem not_unmatched {session : Session} {raw : Bytes} {call : CallId} {aim : Aim}
    {ticket : Ticket} (named : (Response.parse raw).hash = some ticket.hash)
    (waits : session.stage? call = some (.awaiting aim ticket)) : ¬ session.Unmatched raw := by
  rintro (short | nameless | ⟨hash, named', apart⟩)
  · rw [Response.hash_parse_of_short short] at named
    cases named
  · rw [nameless] at named
    cases named
  · exact apart call aim ticket waits (Option.some.inj (named.symm.trans named'))

theorem registry_of_inbound {session : Session} {past : List Action} {action : Action}
    {raw : Bytes} (handled : (session.after past).inbound? action = some raw) :
    (session.after (past ++ [action])).registry =
      ((session.after past).registry.receive raw (session.after past).now).2 := by
  obtain ⟨reads, delivers⟩ := Turn.act_of_inbound handled
  rw [after_concat]
  exact (congrArg (·.session.registry) delivers).trans (Turn.registry_deliver reads)

theorem tables_of_inbound {session : Session} {past : List Action} {action : Action}
    {raw : Bytes} {hash : Hash} (handled : (session.after past).inbound? action = some raw)
    (other : (Response.parse raw).hash ≠ some hash) :
    (session.after (past ++ [action])).registry.pending.get? hash =
      (session.after past).registry.pending.get? hash ∧
    (session.after (past ++ [action])).registry.inFlight.entries.get? hash =
      (session.after past).registry.inFlight.entries.get? hash := by
  rw [registry_of_inbound handled]
  exact ⟨Registry.get?_pending_receive_of_ne other, Registry.get?_inFlight_receive_of_ne other⟩

namespace History

variable {session : Session} {past : List Action} {action : Action} {raw : Bytes}

theorem pending_eq_of_stage?_eq {past' : List Action} (h : session.History past)
    (h' : session.History past')
    (same : ∀ call, (session.after past').stage? call = (session.after past).stage? call)
    (hash : Hash) : (session.after past').registry.pending.get? hash =
      (session.after past).registry.pending.get? hash := by
  ext call
  rw [h'.pending_iff, h.pending_iff, same]

theorem distinct {call call' : CallId} {aim aim' : Aim} {ticket ticket' : Ticket}
    {reply reply' : Reply} (h : session.History past)
    (replied : session.RepliedBy past action call aim ticket reply)
    (replied' : session.RepliedBy past action call' aim' ticket' reply') : call = call' := by
  obtain ⟨-, waits, raw, handled, parsed, -⟩ := replied
  obtain ⟨-, waits', raw', handled', parsed', -⟩ := replied'
  cases handled.symm.trans handled'
  have hashes := congrArg Response.hash (parsed.symm.trans parsed')
  have registered := h.pending_iff.mpr ⟨aim, ticket, waits.stands, rfl⟩
  have registered' := h.pending_iff.mpr
    ⟨aim', ticket', waits'.stands, (Option.some.inj hashes).symm⟩
  exact Option.some.inj (registered.symm.trans registered')

theorem inbound_cases (h : session.History past)
    (handled : (session.after past).inbound? action = some raw) :
    ((session.after past).act action).1.finished = [] ∧
    ((∀ call, (session.after (past ++ [action])).stage? call = (session.after past).stage? call) ∨
    ∃ call, ¬ (session.after past).Unmatched raw ∧ ∀ other ≠ call,
      (session.after (past ++ [action])).stage? other = (session.after past).stage? other) := by
  have h' := h.concat action
  have after_eq : session.after (past ++ [action]) = (session.turnOf past action).session :=
    after_concat ..
  have finished_eq : ((session.after past).act action).1.finished =
      (session.turnOf past action).finished := rfl
  obtain ⟨reads, turn_eq⟩ := turnOf_of_inbound handled
  rw [finished_eq]
  rcases Turn.deliver_cases h.coherent reads with
    ⟨-, same⟩ | ⟨call, aim, ticket, named, waits, -, restaged⟩
  · rw [← turn_eq] at same
    refine ⟨same.finished, .inl ?_⟩
    intro call
    ext stage
    rw [h'.stage?_iff, h.stage?_iff, after_eq, same.tasks]
    rfl
  · rw [← turn_eq] at restaged
    have matched := not_unmatched named (h.stage?_iff.mpr waits)
    refine ⟨restaged.finished, .inr ⟨call, matched, ?_⟩⟩
    intro other differs
    ext stage
    rw [h'.stage?_iff, h.stage?_iff, after_eq, restaged.mem_tasks]
    simp [differs, Turn.start]

end History

theorem correlation_safe {config : Config} {hashes : HashSource} {session : Session}
    (fresh : Session.ofConfig config hashes = .ok session) (past : List Action) (action : Action) :
    session.config = config ∧ session.CorrelationSafe past action := by
  have h := history_of_ofConfig fresh past
  have h' := h.concat action
  refine ⟨(ofConfig_eq_ok fresh).1, ?_, ?_, h.distinct, ?_, ?_, ?_, ?_, ?_⟩
  · intro call outcome member answer
    cases handled : (session.after past).inbound? action with
    | none =>
        have accounted := h.accounted handled
        obtain ⟨aim, ticket, reply, stands, concludes⟩ := accounted.settled member answer
        exact ⟨aim, ticket, reply, h.told stands, concludes⟩
    | some raw =>
        rw [(h.inbound_cases handled).1] at member
        cases member
  · intro call aim ticket reply stands
    exact h.told (h.stage?_iff.mp stands)
  · intro raw handled
    obtain ⟨finished, same | ⟨call, -, others⟩⟩ := h.inbound_cases handled
    · exact ⟨finished, 0, fun other _ => same other⟩
    · exact ⟨finished, call, others⟩
  · have nodup := h'.coherent.nodup_ended
    rwa [Turn.ended, Turn.start, List.map_nil, List.append_nil] at nodup
  · intro call ended
    cases stands : (session.after (past ++ [action])).stage? call with
    | none => rfl
    | some stage =>
        have live := (h'.coherent.task_live _ (h'.stage?_iff.mp stands)).2
        exact absurd (List.mem_append_left _ ended) live
  · intro raw handled unmatched
    obtain ⟨-, same | ⟨call, matched, -⟩⟩ := h.inbound_cases handled
    · refine ⟨same, h.pending_eq_of_stage?_eq h' same, ?_⟩
      intro call aim ticket waits
      -- The frame carries the hash of no waiting call, so what they asked for stays in flight.
      have other : (Response.parse raw).hash ≠ some ticket.hash :=
        fun named => not_unmatched named waits unmatched
      exact (tables_of_inbound handled other).2
    · exact absurd unmatched matched
  · intro raw handled hash other
    exact tables_of_inbound handled other

/-- If the source repeats one hash, the second call draws it before the first one, which was told
its reply, has run on. -/
def overtakingCalls : List Action :=
  [.perform (.call ⟨9, 2, []⟩), .perform (.reply 0 [7] none none),
    .perform (.call ⟨9, 2, []⟩), .perform (.reply 1 [8] none none)]

theorem correlation_safe_repeated_hash : ∃ session,
    Session.ofConfig {} (.scripted [] ⟨[1, 2, 3, 4, 5, 6, 7, 8], rfl⟩) = .ok session ∧
    session.CorrelationSafe (overtakingCalls ++ [.wake 0]) (.wake 1) ∧
    session.ended (overtakingCalls ++ [.wake 0, .wake 1]) = [0, 1] ∧
    ((session.after overtakingCalls).act (.wake 0)).1.finished = [(0, .reply ⟨1, 9, [7]⟩)] ∧
    ((session.after (overtakingCalls ++ [.wake 0])).act (.wake 1)).1.finished =
      [(1, .reply ⟨1, 9, [8]⟩)] := by
  have fresh : Session.ofConfig {} (.scripted [] ⟨[1, 2, 3, 4, 5, 6, 7, 8], rfl⟩) = .ok _ := rfl
  exact ⟨_, fresh, (correlation_safe fresh _ _).2, rfl, rfl, rfl⟩

end Session

end Client

end NodeProtocol
