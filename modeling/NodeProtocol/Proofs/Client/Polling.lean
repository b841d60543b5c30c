import NodeProtocol.Proofs.Client.Polls

namespace NodeProtocol.Client

open Turn (Coherent start)

namespace Poll

variable {poll : Poll} {interval : Nat} {past beats : List Beat} {beat opening : Beat}
  {first last : Session}

/-! ## Runs of a poll -/

theorem Phase.counts (h : poll.Phase past last) :
    (poll.results past).length ≤ (poll.requests past).length ∧
      (poll.requests past).length ≤ (poll.results past).length + 1 ∧
      (poll.requests past).length ≤ poll.maxPolls := by
  cases h with
  | asking _ _ going | pausing _ going =>
      have asked := going.asked
      have left := going.left
      omega
  | ended _ _ answered single few => exact ⟨answered, single, few⟩

theorem Phase.run (h : poll.Phase past first) (ran : Session.Ran first beats last)
    (origins : ∀ beat ∈ beats, beat.Origin) : poll.Phase (past ++ beats) last := by
  induction ran with
  | refl => rwa [List.append_nil]
  | snoc ran sound ih =>
      rw [List.forall_mem_append, List.forall_mem_singleton] at origins
      rw [← List.append_assoc]
      exact ((ih origins.1).step sound origins.2 rfl).phase

structure Silent (poll : Poll) (beats : List Beat) : Prop where
  requests : poll.requests beats = []
  results : poll.results beats = []
  unfinished : ∀ beat ∈ beats, ∀ outcome, ¬ beat.Finishes poll.call outcome

theorem silent_of_gone (gone : first.Gone poll.call) (ran : Session.Ran first beats last)
    (origins : ∀ beat ∈ beats, beat.Origin) : last.Gone poll.call ∧ poll.Silent beats := by
  induction ran with
  | refl => exact ⟨gone, rfl, rfl, List.forall_mem_nil _⟩
  | snoc ran sound ih =>
      rw [List.forall_mem_append, List.forall_mem_singleton] at origins
      obtain ⟨before, requests, results, unfinished⟩ := ih origins.1
      obtain ⟨after, quiet, deaf, still⟩ := step_of_gone origins.2 before
      refine ⟨after, ?_, ?_, ?_⟩
      · rw [requests_of_not_asks quiet, requests]
      · rw [results_of_none deaf, results]
      · rw [List.forall_mem_append, List.forall_mem_singleton]
        exact ⟨unfinished, still⟩

structure Traced (poll : Poll) (interval : Nat) (beats : List Beat) (last : Session) : Prop where
  phase : poll.Phase beats last
  step : ∀ {early beat late}, beats = early ++ beat :: late → poll.Advances interval early beat
  silent : ∀ {early beat late outcome}, beats = early ++ beat :: late →
    beat.Finishes poll.call outcome → poll.Silent late

theorem traced (sound : opening.Sound)
    (opens : poll.Advances opening.after.session.config.pollInterval [] opening)
    (ran : Session.Ran opening.after.session beats last)
    (origins : ∀ beat ∈ beats, beat.Origin) :
    poll.Traced opening.after.session.config.pollInterval (opening :: beats) last := by
  have split {early : List Beat} {beat : Beat} {late : List Beat}
      (split : opening :: beats = early ++ beat :: late) :
      beat.Sound ∧ poll.Advances opening.after.session.config.pollInterval early beat ∧
      Session.Ran beat.after.session late last ∧ ∀ later ∈ late, later.Origin := by
    cases early with
    | nil =>
        cases split
        exact ⟨sound, opens, ran, origins⟩
    | cons first early =>
        rw [List.cons_append] at split
        obtain ⟨rfl, rfl⟩ := List.cons.inj split
        obtain ⟨before, sound, after⟩ := ran.split
        rw [List.forall_mem_append, List.forall_mem_cons] at origins
        have phase := opens.phase.run before origins.1
        exact ⟨sound, phase.step sound origins.2.1 (by rw [before.config.1]), after, origins.2.2⟩
  refine ⟨opens.phase.run ran origins, fun here => (split here).2.1, ?_⟩
  intro early beat late outcome here finishes
  obtain ⟨sound, -, after, later⟩ := split here
  obtain ⟨_, -, coherent⟩ := sound.coherent
  exact (silent_of_gone (coherent.gone finishes.1) after later).2

/-! ## What follows -/

theorem results_split (poll : Poll) (early : List Beat) (beat : Beat) (late : List Beat) :
    poll.results (early ++ beat :: late) =
      poll.results (early ++ [beat]) ++ poll.results late := by
  rw [List.append_cons]
  exact List.filterMap_append

namespace Traced

variable (h : poll.Traced interval beats last)

include h

theorem counts {early : List Beat} (within : early <+: beats) :
    (poll.results early).length ≤ (poll.requests early).length ∧
      (poll.requests early).length ≤ (poll.results early).length + 1 ∧
      (poll.requests early).length ≤ poll.maxPolls := by
  rcases List.eq_nil_or_concat early with rfl | ⟨early, beat, rfl⟩
  · exact ⟨Nat.le_refl _, Nat.zero_le _, Nat.zero_le _⟩
  · obtain ⟨late, rfl⟩ := within
    rw [List.concat_eq_append] at h ⊢
    exact (h.step (List.append_cons ..).symm).phase.counts

theorem settles {result : Except CallError Reply} {outcome : Outcome} (member : beat ∈ beats)
    (hears : beat.result? poll.call = some result) (settles : Settles result outcome) :
    beat.Finishes poll.call outcome := by
  obtain ⟨early, late, rfl⟩ := List.append_of_mem member
  exact (h.step rfl).lawful.settles hears settles

theorem concludes {status : TxStatus} :
    (∃ beat ∈ beats, beat.Finishes poll.call (.status status)) ↔
      ∃ before time reply, before ++ [(time, .ok reply)] <+: poll.results beats ∧
        before.length < poll.maxPolls ∧ (∀ entry ∈ before, Unsettled entry.2) ∧
        Reports reply.body status := by
  constructor
  · rintro ⟨beat, member, finishes⟩
    obtain ⟨early, late, rfl⟩ := List.append_of_mem member
    cases ((h.step rfl).lawful.ends finishes).1 with
    | settled unsettled few hears settles =>
        cases settles with
        | @status reply _ reports =>
            refine ⟨poll.results early, beat.after.session.now, reply, ?_, few, unsettled, reports⟩
            rw [results_split poll early beat late, ← results_of_some hears]
            exact List.prefix_append ..
  · rintro ⟨before, time, reply, heard, -, -, reports⟩
    have entry : (time, Except.ok reply) ∈ poll.results beats :=
      heard.subset (List.mem_append_right _ (List.mem_singleton_self _))
    obtain ⟨beat, member, entry⟩ := List.mem_filterMap.mp entry
    obtain ⟨result, hears, same⟩ := Option.map_eq_some_iff.mp entry
    cases same
    exact ⟨beat, member, h.settles member hears (.status reports)⟩

theorem proceeds (ahead : last.Ahead) (interval_eq : last.config.pollInterval = interval)
    (unsettled : poll.AllUnsettled beats) (paused : poll.Paused interval beats last.now) :
    (poll.requests beats).length = (poll.results beats).length + 1 ∨
      ∃ beat ∈ beats, beat.Finishes poll.call .aborted ∨
        ((poll.results beats).length < poll.maxPolls ∧ ∃ error,
          beat.before.Refuses poll.query error ∧ beat.Finishes poll.call (.failed error)) ∨
        ((poll.results beats).length = poll.maxPolls ∧
          beat.Finishes poll.call (.failed .timeout)) := by
  cases h.phase with
  | asking _ _ going => exact .inl going.asked
  | pausing stands _ heard =>
      -- No wait is overdue in the end, so the pause cannot be over.
      have due := ahead stands
      rw [Stage.due, interval_eq] at due
      exact absurd (paused heard) (Nat.not_le_of_lt due)
  | ended _ finished _ _ _ =>
      obtain ⟨beat, member, outcome, finishes⟩ := finished
      refine .inr ⟨beat, member, ?_⟩
      obtain ⟨early, late, rfl⟩ := List.append_of_mem member
      have heard (ready : poll.Ready interval early beat) :
          (poll.results (early ++ beat :: late)).length = (poll.requests early).length := by
        rw [results_split, (h.silent rfl finishes).results, List.append_nil, ready.answered]
      cases ((h.step rfl).lawful.ends finishes).1 with
      | settled _ _ hears settles =>
          refine absurd settles (unsettled (beat.after.session.now, _) ?_).not_settles
          exact List.mem_filterMap.mpr ⟨beat, member, by rw [hears]; rfl⟩
      | refused ready few refuses =>
          exact .inr (.inl ⟨by rwa [heard ready], _, refuses, finishes⟩)
      | exhausted ready all => exact .inr (.inr ⟨(heard ready).trans all, finishes⟩)
      | aborted => exact .inl finishes

theorem exhausts (ahead : last.Ahead) (interval_eq : last.config.pollInterval = interval)
    (all : (poll.results beats).length = poll.maxPolls) (unsettled : poll.AllUnsettled beats)
    (paused : poll.Paused interval beats last.now) :
    ∃ beat ∈ beats, beat.Finishes poll.call (.failed .timeout) ∨
      beat.Finishes poll.call .aborted := by
  have few := h.phase.counts.2.2
  rcases h.proceeds ahead interval_eq unsettled paused with
    asked | ⟨beat, member, aborted | ⟨left, -⟩ | ⟨-, finishes⟩⟩
  · omega
  · exact ⟨beat, member, .inr aborted⟩
  · omega
  · exact ⟨beat, member, .inl finishes⟩

end Traced

end Poll

/-! ## What an action reports -/

namespace Session

theorem Ran.sound {first last : Session} {beats : List Beat} {beat : Beat}
    (ran : Ran first beats last) (member : beat ∈ beats) : beat.Sound := by
  obtain ⟨early, late, rfl⟩ := List.append_of_mem member
  exact ran.split.2.1

variable {config : Config} {hashes : HashSource} {session : Session} {past : List Action}
  {call : CallId} {outcome : Outcome}

theorem path_kept {action : Action} {turn last : Turn} {stops : List Turn}
    (path : Turn.Path action turn stops last)
    (origins : ∀ beat ∈ Turn.beats action turn stops, beat.Origin) :
    turn.finished ⊆ last.finished ∧
      ∀ beat ∈ Turn.beats action turn stops, beat.after.finished ⊆ last.finished := by
  induction path with
  | refl => exact ⟨List.Subset.refl _, List.forall_mem_nil _⟩
  | head sound path ih =>
      obtain ⟨here, origins⟩ := List.forall_mem_cons.mp origins
      obtain ⟨next, rest⟩ := ih origins
      exact ⟨List.Subset.trans here.kept next, List.forall_mem_cons.mpr ⟨next, rest⟩⟩

theorem after_append (session : Session) (early late : List Action) :
    session.after (early ++ late) = (session.after early).after late :=
  List.foldl_append ..

theorem exists_action_of_mem_beats {actions : List Action} {beat : Beat}
    (member : beat ∈ session.beats actions) :
    ∃ early action late, actions = early ++ action :: late ∧
      beat ∈ Turn.beats action (start (session.after early))
        ((start (session.after early)).stops action) := by
  induction actions generalizing session with
  | nil => cases member
  | cons action actions ih =>
      rcases List.mem_append.mp member with here | later
      · exact ⟨[], action, actions, rfl, here⟩
      · obtain ⟨early, action', late, rfl, there⟩ := ih later
        exact ⟨action :: early, action', late, rfl, there⟩

theorem finishes_iff_reported (fresh : Session.ofConfig config hashes = .ok session)
    (actions : List Action) :
    (∃ beat ∈ (session.after past).beats actions, beat.Finishes call outcome) ↔
      ∃ early action late, actions = early ++ action :: late ∧
        (call, outcome) ∈ (((session.after past).after early).act action).1.finished := by
  constructor
  · rintro ⟨beat, member, now, -⟩
    obtain ⟨early, action, late, rfl, here⟩ := exists_action_of_mem_beats member
    refine ⟨early, action, late, rfl, ?_⟩
    rw [← after_append] at here ⊢
    obtain ⟨-, untold, inTime⟩ := ran_beats fresh (past ++ early)
    have h := (history_of_ofConfig fresh (past ++ early)).coherent
    obtain ⟨path, -⟩ := Turn.path_act h untold inTime action
    obtain ⟨origins, -⟩ :=
      Turn.origins_act h untold (origins_beats fresh (past ++ early)).2 action
    exact (path_kept path origins).2 beat here now
  · rintro ⟨early, action, late, rfl, ended⟩
    rw [← after_append] at ended
    obtain ⟨beat, member, -, finishes⟩ := exists_beat fresh ended
    rw [after_append] at member
    exact ⟨beat, mem_beats_of_action member, finishes⟩

/-! ## Polls -/

structure PollsInTurn (session : Session) (poll : Poll) (actions : List Action) : Prop where
  counts : ∀ {early}, early <+: session.beats actions →
    (poll.results early).length ≤ (poll.requests early).length ∧
    (poll.requests early).length ≤ (poll.results early).length + 1 ∧
    (poll.requests early).length ≤ poll.maxPolls
  asks : ∀ {early beat late}, session.beats actions = early ++ beat :: late →
    beat.asks poll.call → poll.Ready session.config.pollInterval early beat ∧
    (∀ error, ¬ beat.before.Refuses poll.query error) ∧
    ∃ hash, beat.after.sent =
      beat.before.sent ++ [poll.query.frame session.config.protocolVersion (some hash)]
  concludes : ∀ {status},
    (∃ beat ∈ session.beats actions, beat.Finishes poll.call (.status status)) ↔
    ∃ before time reply, before ++ [(time, .ok reply)] <+: poll.results (session.beats actions) ∧
      before.length < poll.maxPolls ∧ (∀ entry ∈ before, Unsettled entry.2) ∧
      Reports reply.body status
  settles : ∀ {beat result outcome}, beat ∈ session.beats actions →
    beat.result? poll.call = some result → Settles result outcome →
    beat.Finishes poll.call outcome
  /-- The results are what the poll was told: no reply is passed over. -/
  wakes : ∀ {beat aim ticket result}, beat ∈ session.beats actions →
    beat.action = .wake poll.call →
    beat.before.session.stage? poll.call = some (.told aim ticket result) →
    beat.result? poll.call = some result
  proceeds : (poll.results (session.beats actions)).length < poll.maxPolls →
    poll.AllUnsettled (session.beats actions) →
    poll.Paused session.config.pollInterval (session.beats actions) (session.after actions).now →
    (poll.requests (session.beats actions)).length =
        (poll.results (session.beats actions)).length + 1 ∨
      ∃ beat ∈ session.beats actions, beat.Finishes poll.call .aborted ∨ ∃ error,
        beat.before.Refuses poll.query error ∧ beat.Finishes poll.call (.failed error)
  exhausts : (poll.results (session.beats actions)).length = poll.maxPolls →
    poll.AllUnsettled (session.beats actions) →
    poll.Paused session.config.pollInterval (session.beats actions) (session.after actions).now →
    ∃ beat ∈ session.beats actions,
      beat.Finishes poll.call (.failed .timeout) ∨ beat.Finishes poll.call .aborted
  ends : ∀ {early beat late outcome}, session.beats actions = early ++ beat :: late →
    beat.Finishes poll.call outcome →
    poll.Ending session.config.pollInterval early beat outcome ∧
    beat.asks poll.call = false ∧ poll.Silent late
  /-- No pause and no wait for a reply goes on past its time. -/
  stands : poll.Phase (session.beats actions) (session.after actions) ∧
    (session.after actions).Ahead
  reported : ∀ {outcome}, (∃ beat ∈ session.beats actions, beat.Finishes poll.call outcome) ↔
    ∃ early action late, actions = early ++ action :: late ∧
      (poll.call, outcome) ∈ ((session.after early).act action).1.finished

theorem step_of_start {poll : Poll} {earlier : List CallId} {interval : Nat}
    (h : Coherent earlier [] (start session)) (held : session.held)
    (begins : poll.call = session.started) :
    poll.Advances interval []
      ⟨poll.action, start session, ((start session).act poll.action).2⟩ := by
  have idle : (start session).session.stage? poll.call = none := by
    cases stands : (start session).session.stage? poll.call with
    | none => rfl
    | some stage =>
        have live := (h.task_live _ (mem_of_stage? stands)).1
        exact absurd begins (Nat.ne_of_lt live)
  have begun : ((start session).act poll.action).2 =
      (start session).begin.2.poll poll.call poll.query poll.maxPolls := by
    rw [begins]
    exact if_pos held
  have attempt := Turn.attempt_poll (start session).begin.2 poll.call poll.query poll.maxPolls
  rw [← begun] at attempt
  exact Poll.step_of_begin h (h.act poll.action) (fun _ => List.not_mem_nil) idle attempt.of_begin

section

variable {config : Config} {hashes : HashSource} {past : List Action} {poll : Poll}

theorem traced_after (fresh : Session.ofConfig config hashes = .ok session)
    (held : (session.after past).held) (begins : poll.call = (session.after past).started)
    (late : List Action) :
    poll.Traced (session.after past).config.pollInterval
      ((session.after past).beats (poll.action :: late))
      ((session.after past).after (poll.action :: late)) := by
  have h := history_of_ofConfig fresh past
  obtain ⟨ran, -, -⟩ := ran_beats fresh (past ++ poll.action :: late)
  obtain ⟨origins, -⟩ := origins_beats fresh (past ++ poll.action :: late)
  have beats_eq : (session.after past).beats (poll.action :: late) =
      ⟨poll.action, start (session.after past), ((start (session.after past)).act poll.action).2⟩ ::
        ((session.after past).act poll.action).2.beats late := rfl
  rw [beats_append, beats_eq] at ran origins
  rw [after_append] at ran
  rw [List.forall_mem_append, List.forall_mem_cons] at origins
  obtain ⟨-, sound, rest⟩ := ran.split
  have traced := Poll.traced sound (step_of_start h.coherent held begins) rest origins.2.2
  have same : ((start (session.after past)).act poll.action).2.session.config =
      (session.after past).config := sound.config
  rwa [same] at traced

/-- A reply that is too short, or whose word is no status code, counts as still pending. -/
theorem polls_in_turn (fresh : Session.ofConfig config hashes = .ok session)
    (held : (session.after past).held) (begins : poll.call = (session.after past).started)
    (late : List Action) :
    (session.after past).config = config ∧
    (session.after past).PollsInTurn poll (poll.action :: late) ∧
    ∀ {reply : Reply}, reply.body.length < 16 ∨ 65535 < Bytes.toNat (reply.body.take 16) ∨
      TxStatus.ofCode? (Bytes.toNat (reply.body.take 16)) = none → Unsettled (.ok reply) := by
  have h := history_of_ofConfig fresh past
  have traced := traced_after fresh held begins late
  obtain ⟨ran, -, -⟩ := ran_beats fresh (past ++ poll.action :: late)
  obtain ⟨origins, ahead⟩ := origins_beats fresh (past ++ poll.action :: late)
  rw [beats_append] at ran origins
  rw [after_append] at ran ahead
  have within {beat : Beat} (member : beat ∈ (session.after past).beats (poll.action :: late)) :
      beat ∈ session.beats past ++ (session.after past).beats (poll.action :: late) :=
    List.mem_append_right _ member
  refine ⟨h.config.trans (ofConfig_eq_ok fresh).1, ?_, unsettled_of_unknown⟩
  have interval_eq : ((session.after past).after (poll.action :: late)).config.pollInterval =
      (session.after past).config.pollInterval := by rw [ran.config.1, h.config]
  refine ⟨traced.counts, ?_, traced.concludes, traced.settles, ?_, ?_,
    traced.exhausts ahead interval_eq, ?_,
    ⟨traced.phase, ahead⟩, finishes_iff_reported fresh _⟩
  · intro early beat late' split asks
    have member := within (split ▸ List.mem_append_right _ List.mem_cons_self)
    have config_eq : beat.before.session.config = (session.after past).config :=
      ((ran.sound member).config.symm.trans (ran.config.2 beat member)).trans h.config.symm
    have lawful := (traced.step split).lawful.asks asks
    rwa [config_eq] at lawful
  · intro beat aim ticket result member wakes told
    obtain ⟨_, before, -⟩ := (ran.sound (within member)).coherent
    exact (origins beat (within member)).result? before wakes told
  · intro left unsettled paused
    rcases traced.proceeds ahead interval_eq unsettled paused with
      asked | ⟨beat, member, aborted | ⟨-, refused⟩ | ⟨all, -⟩⟩
    · exact .inl asked
    · exact .inr ⟨beat, member, .inl aborted⟩
    · exact .inr ⟨beat, member, .inr refused⟩
    · exact absurd all (Nat.ne_of_lt left)
  · intro early beat late' outcome split finishes
    obtain ⟨ending, quiet⟩ := (traced.step split).lawful.ends finishes
    exact ⟨ending, quiet, traced.silent split finishes⟩

end

def twoHashes : HashSource :=
  .scripted [⟨[1, 1, 1, 1, 1, 1, 1, 1], rfl⟩] ⟨[2, 2, 2, 2, 2, 2, 2, 2], rfl⟩

def polledTwice : Poll where
  call := 0
  query := ⟨6, 1, [0x74]⟩
  maxPolls := 2

def pendingReply : Reply :=
  ⟨1, 6, List.replicate 16 0⟩

def includedReply : Reply :=
  ⟨1, 6, List.replicate 15 0 ++ [3]⟩

def pendingThenIncluded : List Action :=
  [.perform (.reply 0 pendingReply.body none none), .wake 0, .perform (.jump 500),
    .perform (.reply 1 includedReply.body none none), .wake 0]

theorem polls_in_turn_pendingThenIncluded : ∃ session,
    Session.ofConfig {} twoHashes = .ok session ∧
    session.PollsInTurn polledTwice (polledTwice.action :: pendingThenIncluded) ∧
    ∃ beat ∈ session.beats (polledTwice.action :: pendingThenIncluded),
      beat.Finishes 0 (.status .included) := by
  have fresh : Session.ofConfig {} twoHashes = .ok _ := rfl
  obtain ⟨-, polls, -⟩ :=
    @polls_in_turn _ _ _ [] polledTwice fresh rfl rfl pendingThenIncluded
  have unsettled : Unsettled (.ok pendingReply) :=
    ⟨pendingReply, rfl, terminalStatus?_eq_none.mp rfl⟩
  have reports : Reports includedReply.body .included := terminalStatus?_eq_some.mp rfl
  exact ⟨_, fresh, polls, polls.concludes.mpr
    ⟨[(0, .ok pendingReply)], 500, includedReply, ⟨[], rfl⟩, by decide,
      List.forall_mem_singleton.mpr unsettled, reports⟩⟩

def drowsyConfig : Config where
  pollInterval := longestSleep + 1

def pendingThenPause : List Action :=
  [.perform (.reply 0 pendingReply.body none none), .wake 0, .perform (.jump longestSleep)]

theorem request_before_interval : ∃ session,
    Session.ofConfig drowsyConfig twoHashes = .ok session ∧
    polledTwice.results (session.beats (polledTwice.action :: pendingThenPause)) =
      [(0, .ok pendingReply)] ∧
    polledTwice.requests (session.beats (polledTwice.action :: pendingThenPause)) =
      [0, longestSleep] ∧
    longestSleep < 0 + drowsyConfig.pollInterval :=
  ⟨_, rfl, rfl, rfl, by decide⟩

end Session

end NodeProtocol.Client
