import NodeProtocol.Proofs.Client.Agreement
import NodeProtocol.Proofs.Client.Deeds
import NodeProtocol.Proofs.Client.Moments

/-!
# The beats of a run

A beat leads from one moment of a run to the next one: the clock moves, one call whose time has come
runs on, or an action happens in which no time passes.

* `Beat.Sound`: what a beat does to the calls that wait, and when it may end one with a timeout.
* `Turn.Path`: an action is a path of sound beats (`path_act`).
* `Session.Ran`: a run of a fresh client is one as well, and no call is overdue at its end
  (`ran_beats`).
-/

namespace NodeProtocol.Client

open Turn (Coherent Covered Asks Deed Calm Halts Moves start)

structure Beat where
  action : Action
  before : Turn
  after : Turn

namespace Session

/-- Nobody was told that a request timed out: only the clock ends a wait so. -/
def Untimed (session : Session) : Prop :=
  ∀ call aim ticket, ⟨call, .told aim ticket (.error .timeout)⟩ ∉ session.tasks

def Timely (session : Session) : Prop :=
  ∀ {call aim ticket}, ⟨call, .awaiting aim ticket⟩ ∈ session.tasks →
    session.now < ticket.request.sentAt + session.config.requestTimeout

end Session

/-! ## Sound beats -/

namespace Beat

def inbound? (beat : Beat) : Option Bytes :=
  beat.before.session.inbound? beat.action

def Finishes (beat : Beat) (call : CallId) (outcome : Outcome) : Prop :=
  (call, outcome) ∈ beat.after.finished ∧ (call, outcome) ∉ beat.before.finished

structure Passive (beat : Beat) (hash : Hash) : Prop where
  unheard : ∀ raw, beat.inbound? = some raw → (Response.parse raw).hash ≠ some hash
  receiving : beat.after.session.registry.receiving = beat.before.session.registry.receiving

/-- The request under the ticket times out: it is due, and it leaves both tables. Its call has
waited for the reply until now, or it sent the request in this beat and may wait no time at all. -/
structure TimesOut (beat : Beat) (call : CallId) (ticket : Ticket) : Prop where
  due : ticket.request.sentAt + beat.after.session.config.requestTimeout ≤ beat.after.session.now
  free : beat.after.session.Free ticket.hash
  passive : beat.Passive ticket.hash
  since : (∃ aim, ⟨call, .awaiting aim ticket⟩ ∈ beat.before.session.tasks) ∨
    Asks beat.before beat.after ticket

def Ignored (beat : Beat) : Prop :=
  beat.after.session.tasks = beat.before.session.tasks ∧ beat.after.finished = beat.before.finished

def Reaches (beat : Beat) (call : CallId) : Prop :=
  (∀ task : Task, task.call ≠ call →
    (task ∈ beat.after.session.tasks ↔ task ∈ beat.before.session.tasks)) ∧
  beat.after.finished = beat.before.finished

structure Sound (beat : Beat) : Prop where
  coherent : ∃ earlier, Coherent earlier [] beat.before ∧ Coherent earlier [] beat.after
  config : beat.after.session.config = beat.before.session.config
  awaiting : ∀ {call aim ticket}, ⟨call, .awaiting aim ticket⟩ ∈ beat.after.session.tasks →
    ⟨call, .awaiting aim ticket⟩ ∈ beat.before.session.tasks ∨
    Asks beat.before beat.after ticket ∧ beat.before.session.config.requestTimeout ≠ 0
  passive : ∀ {call aim ticket}, ⟨call, .awaiting aim ticket⟩ ∈ beat.before.session.tasks →
    ⟨call, .awaiting aim ticket⟩ ∈ beat.after.session.tasks → beat.Passive ticket.hash
  timedOut : ∀ {call}, beat.Finishes call (.failed .timeout) →
    beat.before.session.PollEnds beat.action call ∨ ∃ ticket, beat.TimesOut call ticket
  heard : ∀ {raw hash}, beat.inbound? = some raw → (Response.parse raw).hash = some hash →
    beat.Ignored ∨ ∃ call aim ticket, ticket.hash = hash ∧
      ⟨call, .awaiting aim ticket⟩ ∈ beat.before.session.tasks ∧ beat.Reaches call

variable {beat : Beat} {earlier : List CallId} {call : CallId} {hash : Hash} {outcome : Outcome}
  {excuse : Prop}

theorem not_finishes (same : beat.after.finished = beat.before.finished) :
    ¬ beat.Finishes call outcome :=
  fun ⟨now, new⟩ => new (same ▸ now)

theorem passive_of_silent (silent : beat.inbound? = none)
    (receiving : beat.after.session.registry.receiving = beat.before.session.registry.receiving) :
    beat.Passive hash where
  unheard raw handled := by cases silent.symm.trans handled
  receiving := receiving

namespace Sound

theorem of_silent (silent : beat.inbound? = none)
    (coherent : ∃ earlier, Coherent earlier [] beat.before ∧ Coherent earlier [] beat.after)
    (config : beat.after.session.config = beat.before.session.config)
    (awaiting : ∀ {call aim ticket}, ⟨call, .awaiting aim ticket⟩ ∈ beat.after.session.tasks →
      ⟨call, .awaiting aim ticket⟩ ∈ beat.before.session.tasks ∨
      Asks beat.before beat.after ticket ∧ beat.before.session.config.requestTimeout ≠ 0)
    (receiving : ∀ {call aim ticket}, ⟨call, .awaiting aim ticket⟩ ∈ beat.after.session.tasks →
      beat.after.session.registry.receiving = beat.before.session.registry.receiving)
    (timedOut : ∀ {call}, beat.Finishes call (.failed .timeout) →
      beat.before.session.PollEnds beat.action call ∨ ∃ ticket, beat.TimesOut call ticket) :
    beat.Sound where
  coherent := coherent
  config := config
  awaiting := awaiting
  passive _ waits := passive_of_silent silent (receiving waits)
  timedOut := timedOut
  heard handled := by cases silent.symm.trans handled

theorem of_deed (before : Coherent earlier [] beat.before) (after : Coherent earlier [] beat.after)
    (deed : Deed excuse call beat.before beat.after) (silent : beat.inbound? = none)
    (excused : excuse → beat.before.session.PollEnds beat.action call ∨ ∃ aim ticket,
      ⟨call, .awaiting aim ticket⟩ ∈ beat.before.session.tasks ∧
      beat.after.session.Free ticket.hash ∧
      ticket.request.sentAt + beat.before.session.config.requestTimeout ≤
        beat.before.session.now) :
    beat.Sound := by
  have passive (hash : Hash) : beat.Passive hash := passive_of_silent silent deed.receiving
  refine .of_silent silent ⟨earlier, before, after⟩ deed.config
    (fun waits => (deed.awaiting waits).imp_right And.right) (fun _ => deed.receiving) ?_
  rintro other ⟨now, new⟩
  obtain ⟨rfl, timeout⟩ := (deed.finished now).resolve_left new
  rcases timeout rfl with excuse | ⟨ticket, asks, hasty, free⟩
  · rcases excused excuse with ends | ⟨aim, ticket, waits, free, due⟩
    · exact .inl ends
    · refine .inr ⟨ticket, ?_, free, passive _, .inl ⟨aim, waits⟩⟩
      rw [deed.config, deed.now]
      exact due
  · refine .inr ⟨ticket, ?_, free, passive _, .inr asks⟩
    obtain ⟨query, request, -⟩ := asks
    rw [deed.config, deed.now, hasty, request]
    exact Nat.le_refl _

theorem of_halts (before : Coherent earlier [] beat.before) (after : Coherent earlier [] beat.after)
    (halts : Halts beat.before beat.after) (silent : beat.inbound? = none) : beat.Sound := by
  refine .of_silent silent ⟨earlier, before, after⟩ halts.config
    (fun waits => .inl (halts.awaiting waits)) ?_
    (fun finishes => absurd finishes (not_finishes halts.finished))
  intro call aim ticket waits
  rcases halts.receiving with same | empty
  · exact same
  · have registered := after.pending_iff.mpr ⟨List.not_mem_nil, aim, ticket, waits, rfl⟩
    rw [empty] at registered
    cases registered

theorem of_inbound {session : Session} {action : Action} {raw : Bytes}
    (h : Coherent earlier [] (start session)) (handled : session.inbound? action = some raw) :
    Sound ⟨action, start session, ((start session).act action).2⟩ := by
  obtain ⟨reads, delivers⟩ := Turn.act_of_inbound handled
  have after := h.act action
  have cases := @Turn.deliver_cases _ _ raw h reads
  have calm := Turn.calm_deliver (start session) raw
  rw [← delivers] at cases calm
  refine ⟨⟨earlier, h, after⟩, calm.config, fun member => .inl (calm.awaiting member), ?_,
    fun finishes => absurd finishes (not_finishes calm.finished), ?_⟩
  · intro call aim ticket waits still
    refine ⟨fun raw' handled' named => ?_, calm.receiving⟩
    cases handled.symm.trans handled'
    -- A frame with the hash of a waiting call would have ended its wait.
    have registered := h.pending_iff.mpr ⟨List.not_mem_nil, aim, ticket, waits, rfl⟩
    rcases cases with ⟨unknown, -⟩ | ⟨other, aim', ticket', named', waits', -, restaged⟩
    · cases registered.symm.trans (unknown _ named)
    · have same : ticket'.hash = ticket.hash := Option.some.inj (named'.symm.trans named)
      have registered' := h.pending_iff.mpr ⟨List.not_mem_nil, aim', ticket', waits', same⟩
      cases registered.symm.trans registered'
      rcases restaged.mem_tasks.mp still with ⟨-, differs⟩ | equal
      · exact differs rfl
      · cases equal
  · intro raw' hash handled' named
    cases handled.symm.trans handled'
    rcases cases with ⟨-, same⟩ | ⟨other, aim, ticket, named', waits, -, restaged⟩
    · exact .inl ⟨same.tasks, same.finished⟩
    · refine .inr ⟨other, aim, ticket, Option.some.inj (named'.symm.trans named), waits, ?_,
        restaged.finished⟩
      intro task differs
      rw [restaged.mem_tasks]
      constructor
      · rintro (⟨old, -⟩ | rfl)
        · exact old
        · exact absurd rfl differs
      · exact fun old => .inl ⟨old, differs⟩

theorem timely (sound : beat.Sound) (now : beat.after.session.now = beat.before.session.now)
    (h : beat.before.session.Timely) : beat.after.session.Timely := by
  intro call aim ticket waits
  rw [now, sound.config]
  rcases sound.awaiting waits with old | ⟨⟨query, request, -⟩, patient⟩
  · exact h old
  · rw [request]
    exact Nat.lt_add_of_pos_right (Nat.pos_of_ne_zero patient)

end Sound

end Beat

/-! ## Paths -/

namespace Turn

def beats (action : Action) : Turn → List Turn → List Beat
  | _, [] => []
  | turn, next :: rest => ⟨action, turn, next⟩ :: beats action next rest

inductive Path (action : Action) : Turn → List Turn → Turn → Prop
  | refl {turn} : Path action turn [] turn
  | head {turn next last rest} (sound : Beat.Sound ⟨action, turn, next⟩)
      (path : Path action next rest last) : Path action turn (next :: rest) last

namespace Path

variable {action : Action} {turn middle last : Turn} {stops others : List Turn}

theorem single (sound : Beat.Sound ⟨action, turn, last⟩) : Path action turn [last] last :=
  .head sound .refl

theorem append (h : Path action turn stops middle) (h' : Path action middle others last) :
    Path action turn (stops ++ others) last := by
  induction h with
  | refl => exact h'
  | head sound _ ih => exact .head sound (ih h')

end Path

/-! ## Time -/

structure Overdue (calls : List CallId) (turn : Turn) : Prop where
  nodup : calls.Nodup
  iff : ∀ {call aim ticket}, ⟨call, .awaiting aim ticket⟩ ∈ turn.session.tasks →
    (call ∈ calls ↔
      ticket.request.sentAt + turn.session.config.requestTimeout ≤ turn.session.now)

structure Keeps (scope : Scope) (turn : Turn) : Prop where
  coherent : Coherent scope.earlier [] turn
  covered : Covered scope turn
  untimed : turn.session.Untimed

variable {scope : Scope} {turn before after : Turn} {call : CallId} {calls : List CallId}
  {action : Action}

theorem Keeps.moves (h : Keeps scope before) (never : ¬ scope.tells .timeout)
    (moves : Moves scope ([], before) ([], after)) : Keeps scope after where
  coherent := moves.coherent h.coherent
  covered := moves.covered h.covered
  untimed := by
    intro call aim ticket member
    rcases moves.told member with old | ⟨_, ⟨⟩, tells⟩
    · exact h.untimed _ _ _ old
    · exact never tells

theorem calls_foldl_insert_perm (rank : Task → Nat) (tasks : List Task)
    (order : Ranking Nat CallId) :
    ((tasks.foldl (fun order task => Ranking.insert (· < ·) (rank task) task.call order)
      order).map (·.2)).Perm (order.map (·.2) ++ tasks.map (·.call)) := by
  induction tasks generalizing order with
  | nil => simp
  | cons task tasks ih =>
      have inserted := (Ranking.insert_perm (fun a b => decide (a < b)) (rank task) task.call
        order).map (·.2)
      exact (ih _).trans ((inserted.append_right _).trans List.perm_middle.symm)

theorem overdue_dueCalls (h : Coherent scope.earlier [] turn) :
    Overdue turn.session.dueCalls turn := by
  have perm := calls_foldl_insert_perm (fun task => task.stage.due turn.session.config)
    (turn.session.tasks.filter fun task => task.stage.due turn.session.config ≤ turn.session.now) []
  refine ⟨?_, fun {call aim ticket} waits => ?_⟩
  · exact perm.nodup_iff.mpr (h.nodup_tasks.sublist (List.filter_sublist.map _))
  · refine perm.mem_iff.trans ?_
    rw [List.map_nil, List.nil_append, List.mem_map]
    constructor
    · rintro ⟨⟨_, stage⟩, member, rfl⟩
      obtain ⟨member, due⟩ := List.mem_filter.mp member
      cases h.stage_eq waits member
      exact of_decide_eq_true due
    · intro due
      exact ⟨_, List.mem_filter.mpr ⟨waits, decide_eq_true due⟩, rfl⟩

theorem Overdue.expire (h : Overdue (call :: calls) turn)
    (coherent : Coherent scope.earlier [] turn) : Overdue calls (turn.expire call) := by
  have deed := deed_expire turn call
  obtain ⟨apart, nodup⟩ := List.nodup_cons.mp h.nodup
  refine ⟨nodup, fun {other aim ticket} waits => ?_⟩
  rw [deed.config, deed.now]
  rcases deed.awaiting waits with old | ⟨rfl, ⟨query, request, -⟩, patient⟩
  · have differs : other ≠ call := by
      rintro rfl
      rw [Turn.expire, coherent.stage?_iff.mpr old] at waits
      exact (mem_finish.mp waits).2 rfl
    rw [← h.iff old, List.mem_cons, or_iff_right differs]
  -- It waits for a new request, whose time has not come.
  · rw [request]
    refine iff_of_false apart ?_
    dsimp only
    omega

theorem Overdue.timely (h : Overdue [] turn) : turn.session.Timely := by
  intro call aim ticket waits
  exact Nat.lt_of_not_le ((h.iff waits).not.mp List.not_mem_nil)

theorem sound_expire (silent : ∀ session : Session, session.inbound? action = none)
    (never : ¬ scope.tells .timeout) (h : Keeps scope turn)
    (overdue : Overdue (call :: calls) turn) :
    Keeps scope (turn.expire call) ∧ Beat.Sound ⟨action, turn, turn.expire call⟩ := by
  have next := h.moves never (moves_expire h.coherent h.covered call)
  refine ⟨next, .of_deed h.coherent next.coherent (deed_expire turn call) (silent _) ?_⟩
  rintro ((ends | ⟨aim, ticket, told⟩) | ⟨aim, ticket, waits, free⟩)
  · exact .inl (.inl ends)
  · exact absurd (Session.mem_of_stage? told) (h.untimed _ _ _)
  · have waits := Session.mem_of_stage? waits
    exact .inr ⟨aim, ticket, waits, free, (overdue.iff waits).mp List.mem_cons_self⟩

theorem path_expireEach (silent : ∀ session : Session, session.inbound? action = none)
    (never : ¬ scope.tells .timeout) (h : Keeps scope turn) (overdue : Overdue calls turn) :
    Path action turn (turn.expireEach calls) (calls.foldl expire turn) ∧
      Keeps scope (calls.foldl expire turn) ∧ (calls.foldl expire turn).session.Timely := by
  induction calls generalizing turn with
  | nil => exact ⟨.refl, h, overdue.timely⟩
  | cons call calls ih =>
      obtain ⟨next, sound⟩ := sound_expire silent never h overdue
      obtain ⟨path, last⟩ := ih next (overdue.expire h.coherent)
      exact ⟨.head sound path, last⟩

theorem path_clock {now : Nat} {inFlight : Cache Hash RequestInfo}
    (silent : ∀ session : Session, session.inbound? action = none)
    (never : ¬ scope.tells .timeout) (h : Keeps scope turn)
    (swept : Cache.Swept now turn.session.registry.inFlight inFlight) :
    Path action turn (turn.clockStops now inFlight) (turn.setClock now inFlight).fireDue ∧
      Keeps scope (turn.setClock now inFlight).fireDue ∧
      (turn.setClock now inFlight).fireDue.session.Timely := by
  have same : SameCalls (turn.setClock now inFlight) turn :=
    ⟨rfl, rfl, rfl, rfl, fun _ => rfl, swept.old, List.Subset.refl _, fun aligned =>
      aligned.lose swept.old⟩
  have set : Keeps scope (turn.setClock now inFlight) := h.moves never (.single (.same same))
  have sound : Beat.Sound ⟨action, turn, turn.setClock now inFlight⟩ :=
    .of_silent (silent _) ⟨_, h.coherent, set.coherent⟩ rfl .inl (fun _ => rfl)
      fun finishes => absurd finishes (Beat.not_finishes rfl)
  obtain ⟨path, last⟩ := path_expireEach silent never set (overdue_dueCalls set.coherent)
  exact ⟨.head sound path, last⟩

theorem path_passAll (silent : ∀ session : Session, session.inbound? action = none)
    (never : ¬ scope.tells .timeout) (h : Keeps scope turn) (timely : turn.session.Timely)
    (remaining : Nat) :
    Path action turn (turn.passAllStops remaining) (turn.passAll remaining) ∧
      (turn.passAll remaining).session.Timely := by
  induction turn, remaining using Turn.passAll.induct with
  | case1 turn =>
      rw [passAllStops, passAll, if_pos rfl, if_pos rfl]
      exact ⟨.refl, timely⟩
  | case2 turn remaining more duration ih =>
      rw [passAllStops, passAll, if_neg more, if_neg more]
      obtain ⟨path, next, timely⟩ : Path action turn (turn.passStops duration)
          (turn.pass duration) ∧ Keeps scope (turn.pass duration) ∧ _ :=
        path_clock silent never h (Cache.swept_sweepThrough ..)
      obtain ⟨rest, last⟩ := ih next timely
      exact ⟨path.append rest, last⟩

/-! ## Actions -/

variable {session : Session} {earlier : List CallId}

theorem not_tells_timeout (session : Session) (earlier : List CallId) (action : Action) :
    ¬ (session.scope earlier action).tells .timeout := by
  cases action with
  | wake call => exact fun ⟨same, _⟩ => nomatch same
  | perform step =>
      rintro (failure | ⟨same, -⟩)
      · cases step <;> cases failure
      · cases same

theorem covered_scope (earlier : List CallId) (action : Action) :
    Covered (session.scope earlier action) (start session) := by
  intro call aim ticket stands
  cases action with
  | wake => exact ⟨rfl, _, _, _, stands⟩
  | perform => exact .inr ⟨rfl, _, stands, rfl⟩

theorem judge_ne_timeout (config : Config) (request : Option RequestInfo) (response : Response) :
    Registry.judge config request response ≠ .error .timeout := by
  fun_cases Registry.judge config request response <;> simp

theorem untimed_act (h : Coherent earlier [] (start session)) (untimed : session.Untimed)
    (action : Action) : ((start session).act action).2.session.Untimed := by
  cases handled : session.inbound? action with
  | none =>
      have keeps : Keeps (session.scope earlier action) (start session) :=
        ⟨h, covered_scope earlier action, untimed⟩
      exact (keeps.moves (not_tells_timeout session earlier action) (moves_act h handled)).untimed
  | some raw =>
      obtain ⟨reads, delivers⟩ := act_of_inbound handled
      rw [delivers]
      intro call aim ticket member
      rcases deliver_cases h reads with ⟨-, same⟩ | ⟨other, aim', ticket', -, -, -, restaged⟩
      · exact untimed _ _ _ (same.tasks ▸ member)
      · rcases restaged.mem_tasks.mp member with ⟨old, -⟩ | equal
        · exact untimed _ _ _ old
        · injection equal with _ stage
          injection stage with _ _ verdict
          exact judge_ne_timeout _ _ _ verdict.symm

theorem sound_act (h : Coherent earlier [] (start session)) (untimed : session.Untimed)
    (prompt : ∀ step, action = .perform step →
      step.Prompt ∨ ∃ error, step.failure? = some error) :
    Beat.Sound ⟨action, start session, ((start session).act action).2⟩ ∧
      ((start session).act action).2.session.now = session.now := by
  have after := h.act action
  cases handled : session.inbound? action with
  | some raw =>
      have calm := calm_deliver (start session) raw
      rw [← (act_of_inbound handled).2] at calm
      exact ⟨.of_inbound h handled, calm.now⟩
  | none =>
      cases action with
      | wake call =>
          have deed := deed_wake (start session) call
          refine ⟨.of_deed h after deed handled ?_, deed.now⟩
          rintro (ends | ⟨aim, ticket, told⟩)
          · exact .inl (.inl ends)
          -- Only the clock tells a call that its time is over.
          · exact absurd (Session.mem_of_stage? told) (untimed _ _ _)
      | perform step =>
          rcases prompt step rfl with prompt | ⟨error, fails⟩
          · obtain ⟨call, deed⟩ := @deed_perform (start session) step prompt
            exact ⟨.of_deed h after deed handled .inl, deed.now⟩
          · have halts := @halts_perform (start session) step error fails
            exact ⟨.of_halts h after halts handled, halts.now⟩

theorem stops_perform {step : Step} (awake : ∀ duration, step ≠ .sleep duration)
    (steady : ∀ duration, step ≠ .jump duration) :
    turn.stops (.perform step) = [(turn.perform step).2] := by
  cases step with
  | sleep duration => exact absurd rfl (awake duration)
  | jump duration => exact absurd rfl (steady duration)
  | _ => rfl

theorem path_act (h : Coherent earlier [] (start session)) (untimed : session.Untimed)
    (timely : session.Timely) (action : Action) :
    Path action (start session) ((start session).stops action) ((start session).act action).2 ∧
      ((start session).act action).2.session.Timely := by
  have keeps : Keeps (session.scope earlier action) (start session) :=
    ⟨h, covered_scope earlier action, untimed⟩
  have never := not_tells_timeout session earlier action
  have one (prompt : ∀ step, action = .perform step →
      step.Prompt ∨ ∃ error, step.failure? = some error)
      (stops : (start session).stops action = [((start session).act action).2]) :
      Path action (start session) ((start session).stops action) ((start session).act action).2 ∧
        ((start session).act action).2.session.Timely := by
    obtain ⟨sound, now⟩ := sound_act h untimed prompt
    rw [stops]
    exact ⟨.single sound, sound.timely now timely⟩
  cases action with
  | wake call => exact one nofun rfl
  | perform step =>
      rcases step.kinds with ⟨duration, rfl⟩ | ⟨duration, rfl⟩ | ⟨error, fails⟩ | prompt
      · exact path_passAll (fun _ => rfl) never keeps timely _
      · have silent (session : Session) :
            session.inbound? (.perform (.jump duration)) = none := rfl
        obtain ⟨path, -, last⟩ := path_clock silent never keeps (Cache.swept_sweepAfter ..)
        exact ⟨path, last⟩
      · refine one ?_ (stops_perform ?_ ?_)
        · rintro _ ⟨⟩
          exact .inr ⟨error, fails⟩
        · rintro duration rfl
          cases fails
        · rintro duration rfl
          cases fails
      · refine one ?_ (stops_perform prompt.awake prompt.steady)
        rintro _ ⟨⟩
        exact .inl prompt

end Turn

/-! ## Runs -/

namespace Session

inductive Ran (first : Session) : List Beat → Session → Prop
  | refl : Ran first [] first
  | snoc {beats : List Beat} {beat : Beat} (ran : Ran first beats beat.before.session)
      (sound : beat.Sound) : Ran first (beats ++ [beat]) beat.after.session

def beats (session : Session) : List Action → List Beat
  | [] => []
  | action :: actions =>
    Turn.beats action (start session) ((start session).stops action) ++
      (session.act action).2.beats actions

variable {first last session : Session} {beats earlier later : List Beat} {beat : Beat}

theorem beats_append (session : Session) (past future : List Action) :
    session.beats (past ++ future) = session.beats past ++ (session.after past).beats future := by
  induction past generalizing session with
  | nil => rfl
  | cons first rest ih =>
      rw [List.cons_append, Session.beats, Session.beats, ih, List.append_assoc]
      rfl

theorem Ran.path {action : Action} {turn last : Turn} {stops : List Turn}
    (path : Turn.Path action turn stops last) (ran : Ran first beats turn.session) :
    Ran first (beats ++ Turn.beats action turn stops) last.session := by
  induction path generalizing beats with
  | refl =>
      rw [Turn.beats, List.append_nil]
      exact ran
  | @head turn next last rest sound path ih =>
      have further : Ran first (beats ++ [⟨action, turn, next⟩]) next.session := .snoc ran sound
      rw [Turn.beats, List.append_cons]
      exact ih further

theorem Ran.split (ran : Ran first (earlier ++ beat :: later) last) :
    Ran first earlier beat.before.session ∧ beat.Sound ∧ Ran beat.after.session later last := by
  generalize all : earlier ++ beat :: later = beats at ran
  induction ran generalizing later with
  | refl => simp at all
  | @snoc beats newest ran sound ih =>
      rcases List.eq_nil_or_concat later with rfl | ⟨between, newest', rfl⟩
      · obtain ⟨rfl, same⟩ := List.append_inj' all rfl
        cases same
        exact ⟨ran, sound, .refl⟩
      · rw [List.concat_eq_append, ← List.cons_append, ← List.append_assoc] at all
        obtain ⟨rfl, same⟩ := List.append_inj' all rfl
        cases same
        obtain ⟨before, here, after⟩ := ih rfl
        rw [List.concat_eq_append]
        exact ⟨before, here, .snoc after sound⟩

theorem ran_beats {config : Config} {hashes : HashSource}
    (fresh : Session.ofConfig config hashes = .ok session) (past : List Action) :
    Ran session (session.beats past) (session.after past) ∧ (session.after past).Untimed ∧
      (session.after past).Timely := by
  induction past using List.reverseRecOn with
  | nil =>
      have idle {task : Task} : task ∉ session.tasks := not_mem_tasks_ofConfig fresh
      exact ⟨.refl, fun _ _ _ => idle, fun waits => absurd waits idle⟩
  | append_singleton past action ih =>
      obtain ⟨ran, untimed, timely⟩ := ih
      have h := (history_of_ofConfig fresh past).coherent
      obtain ⟨path, last⟩ := Turn.path_act h untimed timely action
      rw [beats_append, Session.beats, Session.beats, List.append_nil, after_concat]
      exact ⟨ran.path path, Turn.untimed_act h untimed action, last⟩

end Session

end NodeProtocol.Client
