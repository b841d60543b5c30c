import Mathlib.Data.List.Induction
import NodeProtocol.Proofs.Client.Accounted
import NodeProtocol.Proofs.Client.Actions
import NodeProtocol.Proofs.Fallible

namespace NodeProtocol.Client

namespace Session

def after (session : Session) (actions : List Action) : Session :=
  actions.foldl (fun session action => (session.act action).2) session

def ended (session : Session) : List Action → List CallId
  | [] => []
  | action :: actions =>
    (session.act action).1.finished.map (·.1) ++ (session.act action).2.ended actions

theorem after_concat (session : Session) (past : List Action) (action : Action) :
    session.after (past ++ [action]) = ((session.after past).act action).2 :=
  List.foldl_concat ..

theorem ended_concat (session : Session) (past : List Action) (action : Action) :
    session.ended (past ++ [action]) =
      session.ended past ++ ((session.after past).act action).1.finished.map (·.1) := by
  induction past generalizing session with
  | nil => exact List.append_nil _
  | cons first rest ih =>
      rw [List.cons_append, ended, ended, ih, List.append_assoc]
      rfl

def actions (session : Session) (step : Step) : List Action :=
  .perform step :: (session.act (.perform step)).2.toldCalls.map .wake

theorem mem_toldCalls {session : Session} {call : CallId} {aim : Aim} {ticket : Ticket}
    {result : Except CallError Reply} (told : ⟨call, .told aim ticket result⟩ ∈ session.tasks) :
    call ∈ session.toldCalls :=
  List.mem_map.mpr ⟨_, List.mem_filter.mpr ⟨told, rfl⟩, rfl⟩

theorem wakeAll_eq_after (calls : List CallId) (report : Report) (session : Session) :
    (wakeAll calls (report, session)).2 = session.after (calls.map .wake) := by
  induction calls generalizing report session with
  | nil => rfl
  | cons call calls ih => exact ih _ _

theorem step_eq_after (session : Session) (step : Step) :
    (session.step step).2 = session.after (session.actions step) :=
  wakeAll_eq_after ..

theorem finished_append_perm (first second : Report) :
    (first.append second).finished.Perm (first.finished ++ second.finished) := by
  rw [Report.append]
  dsimp only
  induction second.finished with
  | nil => rw [List.foldr_nil, List.append_nil]
  | cons place finished ih =>
      rw [List.foldr_cons]
      exact ((Ranking.insert_perm ..).trans (ih.cons place)).trans List.perm_middle.symm

theorem mem_finished_append {place : CallId × Outcome} {first second : Report} :
    place ∈ (first.append second).finished ↔
      place ∈ first.finished ∨ place ∈ second.finished := by
  rw [(finished_append_perm first second).mem_iff, List.mem_append]

def StartedFor (session : Session) (past : List Action) (call : CallId) (service : UInt8) : Prop :=
  ∃ early action late, past = early ++ action :: late ∧ action.service? = some service ∧
    (session.after early).started = call ∧ call < (session.after (early ++ [action])).started

/-- An earlier action brought the call to the stage, where it has been ever since. -/
def StageSince (session : Session) (past : List Action) (call : CallId) (stage : Stage)
    (cause : List Action → Action → Prop) : Prop :=
  ∃ early action late, past = early ++ action :: late ∧ cause early action ∧
    ∀ between, between <+: late →
      (session.after (early ++ action :: between)).stage? call = some stage

def WaitsSince (session : Session) (past : List Action) (call : CallId) (aim : Aim)
    (ticket : Ticket) : Prop :=
  session.StageSince past call (.awaiting aim ticket) fun early action =>
    ∃ query : Query, query.service = ticket.request.service ∧
      query.frame session.config.protocolVersion (some ticket.hash) ∈
        ((session.after early).act action).1.sent

/-- In an action, the pump handles a frame with the hash and the service of the request whose reply
the call has waited for, and with the version of the client. The reply is made of that frame. -/
def RepliedBy (session : Session) (early : List Action) (action : Action) (call : CallId)
    (aim : Aim) (ticket : Ticket) (reply : Reply) : Prop :=
  session.StartedFor early call ticket.request.service ∧ session.WaitsSince early call aim ticket ∧
    ∃ raw, (session.after early).inbound? action = some raw ∧
      Response.parse raw =
        ⟨session.config.protocolVersion, ticket.request.service, some ticket.hash, reply.body⟩ ∧
      reply = ⟨session.config.protocolVersion, ticket.request.service, reply.body⟩

def ToldSince (session : Session) (past : List Action) (call : CallId) (aim : Aim)
    (ticket : Ticket) (reply : Reply) : Prop :=
  session.StageSince past call (.told aim ticket (.ok reply)) fun early action =>
    session.RepliedBy early action call aim ticket reply

section

variable {session : Session} {past : List Action} {action : Action} {call : CallId}

theorem StartedFor.concat {service : UInt8} (h : session.StartedFor past call service) :
    session.StartedFor (past ++ [action]) call service := by
  obtain ⟨early, start, late, rfl, service_eq, began, started⟩ := h
  exact ⟨early, start, late ++ [action], by simp, service_eq, began, started⟩

theorem StageSince.concat {stage : Stage} {cause : List Action → Action → Prop}
    (h : session.StageSince past call stage cause)
    (still : (session.after (past ++ [action])).stage? call = some stage) :
    session.StageSince (past ++ [action]) call stage cause := by
  obtain ⟨early, start, late, rfl, caused, stands⟩ := h
  refine ⟨early, start, late ++ [action], by simp, caused, ?_⟩
  intro between between_prefix
  rcases List.prefix_concat_iff.mp between_prefix with rfl | within
  · rwa [List.append_assoc] at still
  · exact stands between within

theorem stageSince_concat {stage : Stage} {cause : List Action → Action → Prop}
    (caused : cause past action)
    (stands : (session.after (past ++ [action])).stage? call = some stage) :
    session.StageSince (past ++ [action]) call stage cause := by
  refine ⟨past, action, [], rfl, caused, ?_⟩
  intro between nothing
  rw [List.prefix_nil.mp nothing]
  exact stands

structure History (session : Session) (past : List Action) : Prop where
  coherent : Turn.Coherent (session.ended past) [] (Turn.start (session.after past))
  config : (session.after past).config = session.config
  asked : ∀ {task}, task ∈ (session.after past).tasks →
    session.StartedFor past task.call task.stage.service ∧ task.stage.Sound
  waits : ∀ {call aim ticket}, ⟨call, .awaiting aim ticket⟩ ∈ (session.after past).tasks →
    session.WaitsSince past call aim ticket
  told : ∀ {call aim ticket reply},
    ⟨call, .told aim ticket (.ok reply)⟩ ∈ (session.after past).tasks →
    session.ToldSince past call aim ticket reply

def Serves (session : Session) (past : List Action) (action : Action) (call : CallId)
    (service : UInt8) : Prop :=
  session.StartedFor past call service ∨
    call = (session.after past).started ∧ action.service? = some service

def turnOf (session : Session) (past : List Action) (action : Action) : Turn :=
  ((Turn.start (session.after past)).act action).2

theorem turnOf_of_inbound {raw : Bytes} (handled : (session.after past).inbound? action = some raw) :
    (session.after past).reads ∧
      session.turnOf past action = ((Turn.start (session.after past)).deliver raw).2 :=
  Turn.act_of_inbound handled

namespace History

theorem stage?_iff {stage : Stage} (h : session.History past) :
    (session.after past).stage? call = some stage ↔ ⟨call, stage⟩ ∈ (session.after past).tasks :=
  h.coherent.stage?_iff

theorem pending_iff {hash : Hash} (h : session.History past) :
    (session.after past).registry.pending.get? hash = some call ↔
      ∃ aim ticket, (session.after past).stage? call = some (.awaiting aim ticket) ∧
        ticket.hash = hash := by
  simp only [h.stage?_iff]
  exact h.coherent.pending_iff.trans (and_iff_right List.not_mem_nil)

theorem accounted (h : session.History past)
    (silent : (session.after past).inbound? action = none) :
    Turn.Accounted (session.Serves past action) (session.after past)
      (session.turnOf past action) := by
  refine .moves .inr (Turn.moves_act h.coherent silent) ?_
  refine ⟨rfl, ?_, .inl, id, ?_⟩
  · intro task member
    obtain ⟨started, sound⟩ := h.asked member
    exact ⟨.inl started, sound⟩
  · intro call outcome member
    cases member

theorem coherent_turnOf (h : session.History past) (action : Action) :
    Turn.Coherent (session.ended past) [] (session.turnOf past action) :=
  h.coherent.act action

theorem concat_of (h : session.History past)
    (coherent : Turn.Coherent (session.ended past) [] (session.turnOf past action))
    (config : (session.turnOf past action).session.config = (session.after past).config)
    (asked : ∀ {task}, task ∈ (session.turnOf past action).session.tasks →
      session.Serves past action task.call task.stage.service ∧ task.stage.Sound)
    (waits : ∀ {call aim ticket},
      ⟨call, .awaiting aim ticket⟩ ∈ (session.turnOf past action).session.tasks →
      ⟨call, .awaiting aim ticket⟩ ∈ (session.after past).tasks ∨
      ∃ query : Query, query.service = ticket.request.service ∧
        query.frame (session.after past).config.protocolVersion (some ticket.hash) ∈
          (session.turnOf past action).sent)
    (told : ∀ {call aim ticket reply},
      ⟨call, .told aim ticket (.ok reply)⟩ ∈ (session.turnOf past action).session.tasks →
      ⟨call, .told aim ticket (.ok reply)⟩ ∈ (session.after past).tasks ∨
      session.RepliedBy past action call aim ticket reply) :
    session.History (past ++ [action]) := by
  have after_eq : session.after (past ++ [action]) = (session.turnOf past action).session :=
    after_concat ..
  have coherent : Turn.Coherent (session.ended (past ++ [action])) []
      (Turn.start (session.after (past ++ [action]))) := by
    rw [ended_concat, after_eq]
    exact coherent.next
  refine ⟨coherent, ?_, ?_, ?_, ?_⟩
  · rw [after_eq]
    exact config.trans h.config
  · intro task member
    have live := (coherent.task_live task member).1
    rw [after_eq] at member
    obtain ⟨early | ⟨began, service⟩, sound⟩ := asked member
    · exact ⟨early.concat, sound⟩
    · exact ⟨⟨past, action, [], rfl, service, began.symm, live⟩, sound⟩
  · intro call aim ticket member
    have stands := coherent.stage?_iff.mpr member
    rw [after_eq] at member
    rcases waits member with old | ⟨query, service, frame⟩
    · exact (h.waits old).concat stands
    · rw [h.config] at frame
      exact stageSince_concat ⟨query, service, frame⟩ stands
  · intro call aim ticket reply member
    have stands := coherent.stage?_iff.mpr member
    rw [after_eq] at member
    rcases told member with old | replied
    · exact (h.told old).concat stands
    · exact stageSince_concat replied stands

theorem repliedBy {aim : Aim} {ticket : Ticket} {reply : Reply} {raw : Bytes}
    (h : session.History past) (handled : (session.after past).inbound? action = some raw)
    (named : (Response.parse raw).hash = some ticket.hash)
    (waits : ⟨call, .awaiting aim ticket⟩ ∈ (session.after past).tasks)
    (verdict : Registry.judge (session.after past).config
      ((session.after past).registry.inFlight.remove ticket.hash (session.after past).now).1
      (Response.parse raw) = .ok reply) : session.RepliedBy past action call aim ticket reply := by
  obtain ⟨info, inFlight, service, version, rfl⟩ := Registry.judge_eq_ok.mp verdict
  obtain ⟨entry, found, rfl⟩ := Cache.get?_of_remove_eq_some inFlight
  have own : entry.value = ticket.request := h.coherent.inFlight_fits List.not_mem_nil waits found
  rw [own] at service
  rw [h.config] at version
  refine ⟨(h.asked waits).1, h.waits waits, raw, handled, ?_, ?_⟩
  · rw [← version, ← named, service]
  · rw [← version, service]

theorem concat (h : session.History past) (action : Action) :
    session.History (past ++ [action]) := by
  have coherent := h.coherent_turnOf action
  cases handled : (session.after past).inbound? action with
  | none =>
      have accounted := h.accounted handled
      exact h.concat_of coherent accounted.config accounted.asked accounted.sent
        fun member => .inl (accounted.told member)
  | some raw =>
      have old {task : Task} (member : task ∈ (session.after past).tasks) :
          session.Serves past action task.call task.stage.service ∧ task.stage.Sound := by
        obtain ⟨started, sound⟩ := h.asked member
        exact ⟨.inl started, sound⟩
      obtain ⟨reads, turn_eq⟩ := turnOf_of_inbound handled
      rcases Turn.deliver_cases h.coherent reads with
        ⟨-, same⟩ | ⟨call, aim, ticket, named, waits, -, restaged⟩
      · rw [← turn_eq] at same
        exact h.concat_of coherent same.config (fun member => old (same.tasks ▸ member))
          (fun member => .inl (same.tasks ▸ member)) (fun member => .inl (same.tasks ▸ member))
      · rw [← turn_eq] at restaged
        refine h.concat_of coherent restaged.config ?_ ?_ ?_
        · intro task member
          rcases restaged.mem_tasks.mp member with ⟨member, -⟩ | rfl
          · exact old member
          · obtain ⟨served, sound⟩ := old waits
            exact ⟨served, Stage.sound_told sound _⟩
        · intro other aim' ticket' member
          rcases restaged.mem_tasks.mp member with ⟨member, -⟩ | equal
          · exact .inl member
          · cases equal
        · intro other aim' ticket' reply member
          rcases restaged.mem_tasks.mp member with ⟨member, -⟩ | equal
          · exact .inl member
          · injection equal with same_call same_stage
            injection same_stage with same_aim same_ticket verdict
            subst same_call same_aim same_ticket
            exact .inr (h.repliedBy handled named waits verdict.symm)

end History

theorem ofConfig_eq_ok {config : Config} {hashes : HashSource}
    (h : Session.ofConfig config hashes = .ok session) : session.config = config ∧
      session.tasks = [] ∧ session.registry.pending = .empty ∧
      session.registry.inFlight.entries = .empty := by
  obtain ⟨registry, made, rest⟩ := bind_eq_ok.mp h
  obtain ⟨-, -, same⟩ := bind_eq_ok.mp made
  cases same
  cases rest
  exact ⟨rfl, rfl, rfl, rfl⟩

theorem not_mem_tasks_ofConfig {config : Config} {hashes : HashSource} {task : Task}
    (fresh : Session.ofConfig config hashes = .ok session) : task ∉ session.tasks := by
  rw [(ofConfig_eq_ok fresh).2.1]
  exact List.not_mem_nil

theorem history_of_ofConfig {config : Config} {hashes : HashSource}
    (fresh : Session.ofConfig config hashes = .ok session) (past : List Action) :
    session.History past := by
  obtain ⟨-, tasks, pending, inFlight⟩ := ofConfig_eq_ok fresh
  induction past using List.reverseRecOn with
  | nil =>
      have idle {task : Task} : task ∉ (session.after []).tasks := not_mem_tasks_ofConfig fresh
      exact ⟨.initial tasks pending inFlight, rfl, fun member => absurd member idle,
        fun member => absurd member idle, fun member => absurd member idle⟩
  | append_singleton past action ih => exact ih.concat action

end

end Session

end NodeProtocol.Client
