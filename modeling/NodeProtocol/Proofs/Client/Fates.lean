import NodeProtocol.Proofs.Client.Beats
import NodeProtocol.Proofs.Client.Bystanders

namespace NodeProtocol.Client

open Turn (Coherent Covered Moves Nudges Runs start)

def Session.Ahead (session : Session) : Prop :=
  ∀ {call stage}, session.stage? call = some stage → session.now < stage.due session.config

def Session.Gone (session : Session) (call : CallId) : Prop :=
  call < session.started ∧ session.stage? call = none

inductive Beat.Origin (beat : Beat) : Prop
  | tick {now : Nat} {inFlight : Cache Hash RequestInfo} (timed : beat.action.Timed)
      (set : beat.after = beat.before.setClock now inFlight)
  | expire {call : CallId} (timed : beat.action.Timed)
      (due : ∀ {stage}, beat.before.session.stage? call = some stage →
        stage.due beat.before.session.config ≤ beat.before.session.now)
      (expires : beat.after = beat.before.expire call)
  | act (untimed : ¬ beat.action.Timed) (opens : beat.before = start beat.before.session)
      (acts : beat.after = (beat.before.act beat.action).2)

namespace Turn

variable {turn : Turn} {call : CallId} {calls : List CallId} {action : Action}

structure Due (calls : List CallId) (turn : Turn) : Prop where
  nodup : calls.Nodup
  iff : ∀ {call stage}, turn.session.stage? call = some stage →
    (call ∈ calls ↔ stage.due turn.session.config ≤ turn.session.now)

theorem due_dueCalls (nodup : (turn.session.tasks.map (·.call)).Nodup) :
    Due turn.session.dueCalls turn := by
  have perm := calls_foldl_insert_perm (fun task => task.stage.due turn.session.config)
    (turn.session.tasks.filter fun task => task.stage.due turn.session.config ≤ turn.session.now) []
  refine ⟨perm.nodup_iff.mpr (nodup.sublist (List.filter_sublist.map _)), ?_⟩
  intro call stage stands
  have here := Session.mem_of_stage? stands
  refine perm.mem_iff.trans ?_
  rw [List.map_nil, List.nil_append, List.mem_map]
  constructor
  · rintro ⟨⟨_, stage'⟩, member, rfl⟩
    obtain ⟨member, due⟩ := List.mem_filter.mp member
    cases List.inj_on_of_nodup_map nodup member here rfl
    exact of_decide_eq_true due
  · intro due
    exact ⟨_, List.mem_filter.mpr ⟨here, decide_eq_true due⟩, rfl⟩

theorem Due.expire (h : Due (call :: calls) turn) : Due calls (turn.expire call) := by
  obtain ⟨apart, nodup⟩ := List.nodup_cons.mp h.nodup
  have other {other : CallId} {stage : Stage} (differs : other ≠ call)
      (stands : turn.session.stage? other = some stage) :
      other ∈ calls ↔ stage.due turn.session.config ≤ turn.session.now := by
    rw [← h.iff stands, List.mem_cons, or_iff_right differs]
  refine ⟨nodup, ?_⟩
  cases own : turn.session.stage? call with
  | none =>
      rw [expire_of_none own]
      intro _ stage stands
      refine other ?_ stands
      rintro rfl
      cases own.symm.trans stands
  | some stage =>
      have runs := runs_expire own
      have deed := deed_expire turn call
      rw [deed.config, deed.now]
      intro caller stage stands
      by_cases equal : caller = call
      · subst equal
        exact iff_of_false apart (Nat.not_le_of_lt (runs.fresh stands))
      · have nudged := runs.others caller equal
        rw [stands] at nudged
        obtain ⟨stage', stood, same⟩ := nudged.due turn.session.config
        rw [← same]
        exact other equal stood

theorem Due.ahead (h : Due [] turn) : turn.session.Ahead :=
  fun stands => Nat.lt_of_not_le ((h.iff stands).not.mp List.not_mem_nil)

theorem origins_expireEach (timed : action.Timed) (due : Due calls turn) :
    (∀ beat ∈ Turn.beats action turn (turn.expireEach calls), beat.Origin) ∧
      (calls.foldl expire turn).session.Ahead := by
  induction calls generalizing turn with
  | nil => exact ⟨List.forall_mem_nil _, due.ahead⟩
  | cons call calls ih =>
      obtain ⟨rest, last⟩ := ih due.expire
      refine ⟨List.forall_mem_cons.mpr ⟨?_, rest⟩, last⟩
      exact .expire timed (fun stands => (due.iff stands).mp List.mem_cons_self) rfl

theorem origins_clock {now : Nat} {inFlight : Cache Hash RequestInfo} (timed : action.Timed)
    (nodup : (turn.session.tasks.map (·.call)).Nodup) :
    (∀ beat ∈ Turn.beats action turn (turn.clockStops now inFlight), beat.Origin) ∧
      (turn.setClock now inFlight).fireDue.session.Ahead := by
  have set : ((turn.setClock now inFlight).session.tasks.map (·.call)).Nodup := nodup
  obtain ⟨rest, last⟩ := origins_expireEach timed (due_dueCalls set)
  exact ⟨List.forall_mem_cons.mpr ⟨.tick timed rfl, rest⟩, last⟩

theorem Path.beats_append {middle : Turn} {stops : List Turn}
    (path : Path action turn stops middle) (others : List Turn) :
    Turn.beats action turn (stops ++ others) =
      Turn.beats action turn stops ++ Turn.beats action middle others := by
  induction path with
  | refl => rfl
  | head _ _ ih => exact congrArg (_ :: ·) ih

theorem origins_passAll {scope : Scope} (timed : action.Timed)
    (silent : ∀ session : Session, session.inbound? action = none)
    (never : ¬ scope.tells .timeout) (h : Keeps scope turn) (ahead : turn.session.Ahead)
    (remaining : Nat) :
    (∀ beat ∈ Turn.beats action turn (turn.passAllStops remaining), beat.Origin) ∧
      (turn.passAll remaining).session.Ahead := by
  induction turn, remaining using Turn.passAll.induct with
  | case1 turn =>
      rw [passAllStops, passAll, if_pos rfl, if_pos rfl]
      exact ⟨List.forall_mem_nil _, ahead⟩
  | case2 turn remaining more duration ih =>
      rw [passAllStops, passAll, if_neg more, if_neg more]
      obtain ⟨path, next, -⟩ : Path action turn (turn.passStops duration)
          (turn.pass duration) ∧ Keeps scope (turn.pass duration) ∧ _ :=
        path_clock silent never h (Cache.swept_sweepThrough ..)
      obtain ⟨first, ahead⟩ : (∀ beat ∈ Turn.beats action turn (turn.passStops duration),
          beat.Origin) ∧ (turn.pass duration).session.Ahead :=
        origins_clock timed h.coherent.nodup_tasks
      obtain ⟨rest, last⟩ := ih next ahead
      refine ⟨?_, last⟩
      dsimp only
      rw [path.beats_append, List.forall_mem_append]
      exact ⟨first, rest⟩

variable {session : Session} {earlier : List CallId}

theorem prompt_of_untimed (untimed : ¬ action.Timed) (step : Step)
    (performs : action = .perform step) :
    step.Prompt ∨ ∃ error, step.failure? = some error := by
  subst performs
  rcases step.kinds with ⟨duration, rfl⟩ | ⟨duration, rfl⟩ | fails | prompt
  · exact absurd ⟨duration, .inl rfl⟩ untimed
  · exact absurd ⟨duration, .inr rfl⟩ untimed
  · exact .inr fails
  · exact .inl prompt

theorem ahead_act (h : Coherent earlier [] (start session)) (untold : session.Untimed)
    (untimed : ¬ action.Timed) (ahead : session.Ahead) :
    ((start session).act action).2.session.Ahead := by
  obtain ⟨sound, now⟩ := sound_act h untold (prompt_of_untimed untimed)
  have config : ((start session).act action).2.session.config = session.config := sound.config
  intro call stage stands
  rw [now, config]
  have stood {before : Option Stage} (nudged : Nudged before (some stage))
      (same : session.stage? call = before) : session.now < stage.due session.config := by
    obtain ⟨stage', stood, due⟩ := nudged.due session.config
    rw [← due]
    exact ahead (same.trans stood)
  rcases runs_or_nudges_act session untimed with ⟨actor, -, runs⟩ | nudges
  · by_cases own : call = actor
    · subst own
      exact runs.fresh stands
    · have nudged := runs.others call own
      rw [stands] at nudged
      exact stood nudged rfl
  · have nudged := nudges.stage call
    rw [stands] at nudged
    exact stood nudged rfl

theorem stops_of_untimed (untimed : ¬ action.Timed) :
    turn.stops action = [(turn.act action).2] := by
  cases action with
  | wake call => rfl
  | perform step =>
      refine stops_perform ?_ ?_
      · rintro duration rfl
        exact untimed ⟨duration, .inl rfl⟩
      · rintro duration rfl
        exact untimed ⟨duration, .inr rfl⟩

theorem origins_act (h : Coherent earlier [] (start session)) (untold : session.Untimed)
    (ahead : session.Ahead) (action : Action) :
    (∀ beat ∈ Turn.beats action (start session) ((start session).stops action), beat.Origin) ∧
      ((start session).act action).2.session.Ahead := by
  by_cases timed : action.Timed
  · have keeps : Keeps (session.scope earlier action) (start session) :=
      ⟨h, covered_scope earlier action, untold⟩
    have never := not_tells_timeout session earlier action
    obtain ⟨duration, rfl | rfl⟩ := timed
    · exact origins_passAll ⟨duration, .inl rfl⟩ (fun _ => rfl) never keeps ahead _
    · exact origins_clock ⟨duration, .inr rfl⟩ h.nodup_tasks
  · rw [stops_of_untimed timed]
    refine ⟨?_, ahead_act h untold timed ahead⟩
    intro beat member
    cases List.mem_singleton.mp member
    exact .act timed rfl rfl

end Turn

theorem Session.origins_beats {config : Config} {hashes : HashSource} {session : Session}
    (fresh : Session.ofConfig config hashes = .ok session) (past : List Action) :
    (∀ beat ∈ session.beats past, beat.Origin) ∧ (session.after past).Ahead := by
  induction past using List.reverseRecOn with
  | nil =>
      refine ⟨List.forall_mem_nil _, fun stands => ?_⟩
      exact absurd (mem_of_stage? stands) (not_mem_tasks_ofConfig fresh)
  | append_singleton past action ih =>
      obtain ⟨origins, ahead⟩ := ih
      have h := (history_of_ofConfig fresh past).coherent
      obtain ⟨-, untold, -⟩ := ran_beats fresh past
      obtain ⟨here, last⟩ := Turn.origins_act h untold ahead action
      rw [beats_append, Session.beats, Session.beats, List.append_nil, after_concat,
        List.forall_mem_append]
      exact ⟨⟨origins, here⟩, last⟩

def Action.aborts : Action → CallId → Bool
  | .perform (.abort other), call => other = call
  | _, _ => false

namespace Beat

inductive Fate (beat : Beat) (call : CallId) : Prop
  | standsBy (nudged : Nudged (beat.before.session.stage? call) (beat.after.session.stage? call))
      (unfinished : ∀ outcome, ¬ beat.Finishes call outcome)
  | aborted {stage : Stage} (stands : beat.before.session.stage? call = some stage)
      (aborted : beat.action.aborts call) (aborts : beat.after = beat.before.abort call)
  | wakes {aim : Aim} {ticket : Ticket} {result : Except CallError Reply}
      (told : beat.before.session.stage? call = some (.told aim ticket result))
      (kept : beat.action.aborts call = false) (wakes : beat.after = beat.before.wake call)
  | expires {stage : Stage} (stands : beat.before.session.stage? call = some stage)
      (due : stage.due beat.before.session.config ≤ beat.before.session.now)
      (kept : beat.action.aborts call = false) (expires : beat.after = beat.before.expire call)

variable {beat : Beat} {call : CallId}

theorem Fate.of_eq (same : beat.after = beat.before) : beat.Fate call := by
  refine .standsBy ?_ fun outcome => not_finishes (congrArg Turn.finished same)
  rw [same]
  exact .same

theorem Fate.of_runs {actor : CallId} (runs : Runs actor beat.before beat.after)
    (differs : call ≠ actor) : beat.Fate call :=
  .standsBy (runs.others call differs) fun _ ⟨now, new⟩ => (runs.finished now).elim new differs

theorem Fate.of_wake (action : beat.action = .wake call)
    (wakes : beat.after = beat.before.wake call) : beat.Fate call := by
  by_cases told : ∃ aim ticket result,
      beat.before.session.stage? call = some (.told aim ticket result)
  · obtain ⟨aim, ticket, result, told⟩ := told
    exact .wakes told (by rw [action]; rfl) wakes
  · refine .of_eq (wakes.trans (Turn.wake_of_untold fun aim ticket result stands => ?_))
    exact told ⟨aim, ticket, result, stands⟩

theorem Fate.of_abort (aborted : beat.action.aborts call)
    (aborts : beat.after = beat.before.abort call) : beat.Fate call := by
  cases stands : beat.before.session.stage? call with
  | none => exact .of_eq (aborts.trans (Turn.abort_of_none stands))
  | some => exact .aborted stands aborted aborts

theorem actor?_cases {session : Session} {action : Action}
    (acts : session.actor? action = some call) :
    action = .wake call ∨ action = .perform (.abort call) ∨ call = session.started := by
  unfold Session.actor? at acts
  split at acts
  case h_1 | h_2 => simp_all
  case h_7 => cases acts
  all_goals exact .inr (.inr (Option.some.inj acts).symm)

theorem kept_of_timed (timed : beat.action.Timed) : beat.action.aborts call = false := by
  obtain ⟨duration, same | same⟩ := timed <;> rw [same] <;> rfl

theorem Origin.fate (origin : beat.Origin) (begun : call < beat.before.session.started) :
    beat.Fate call := by
  cases origin with
  | tick timed set =>
      refine .standsBy ?_ fun outcome => not_finishes (by rw [set]; rfl)
      rw [set]
      exact .same
  | @expire other timed due expires =>
      cases stands : beat.before.session.stage? other with
      | none => exact .of_eq (expires.trans (Turn.expire_of_none stands))
      | some =>
          by_cases own : call = other
          · subst own
            exact .expires stands (due stands) (kept_of_timed timed) expires
          · exact .of_runs (expires ▸ Turn.runs_expire stands) own
  | act untimed opens acts =>
      have either := Turn.runs_or_nudges_act beat.before.session untimed
      rw [← opens, ← acts] at either
      rcases either with ⟨actor, acting, runs⟩ | nudges
      · by_cases own : call = actor
        · subst own
          rcases actor?_cases acting with wakes | aborts | begins
          · exact .of_wake wakes (acts.trans (by rw [wakes]; rfl))
          · have aborted : beat.action.aborts call := by
              rw [aborts]
              exact decide_eq_true rfl
            exact .of_abort aborted (acts.trans (by rw [aborts]; rfl))
          · exact absurd begins (Nat.ne_of_lt begun)
        · exact .of_runs runs own
      · exact .standsBy (nudges.stage call) fun outcome => not_finishes nudges.finished

theorem Origin.runs_or_nudges (origin : beat.Origin) :
    (∃ actor, Runs actor beat.before beat.after) ∨ Nudges beat.before beat.after := by
  cases origin with
  | tick timed set => exact .inr (.of_tasks (set ▸ rfl) (set ▸ rfl) (set ▸ rfl))
  | @expire call timed due expires =>
      rw [expires]
      cases stands : beat.before.session.stage? call with
      | none =>
          rw [Turn.expire_of_none stands]
          exact .inr (.refl _)
      | some => exact .inl ⟨call, Turn.runs_expire stands⟩
  | act untimed opens acts =>
      have either := Turn.runs_or_nudges_act beat.before.session untimed
      rw [← opens, ← acts] at either
      exact either.imp_left fun ⟨actor, _, runs⟩ => ⟨actor, runs⟩

theorem Origin.started_le (origin : beat.Origin) :
    beat.before.session.started ≤ beat.after.session.started := by
  rcases origin.runs_or_nudges with ⟨actor, runs⟩ | nudges
  · exact runs.started
  · exact Nat.le_of_eq nudges.started.symm

theorem Origin.kept (origin : beat.Origin) : beat.before.finished ⊆ beat.after.finished := by
  rcases origin.runs_or_nudges with ⟨actor, runs⟩ | nudges
  · exact runs.kept
  · exact fun _ member => nudges.finished.symm ▸ member

theorem Origin.gone (origin : beat.Origin) (h : beat.before.session.Gone call) :
    beat.after.session.Gone call ∧ ∀ outcome, ¬ beat.Finishes call outcome := by
  obtain ⟨begun, stands⟩ := h
  have begun' := Nat.lt_of_lt_of_le begun origin.started_le
  cases origin.fate begun with
  | standsBy nudged unfinished =>
      rw [stands] at nudged
      exact ⟨⟨begun', nudged.eq_none⟩, unfinished⟩
  | aborted stands' | wakes stands' | expires stands' => cases stands.symm.trans stands'

end Beat

end NodeProtocol.Client
