import NodeProtocol.Proofs.Client.Beats

namespace NodeProtocol.Client

open Turn (Asks start)

def WaitedThrough (beats : List Beat) (call : CallId) (aim : Aim) (ticket : Ticket) : Prop :=
  ∃ earlier sending since, beats = earlier ++ sending :: since ∧
    Asks sending.before sending.after ticket ∧
    ⟨call, .awaiting aim ticket⟩ ∈ sending.after.session.tasks ∧
    ∀ beat ∈ since, beat.Passive ticket.hash ∧
      ⟨call, .awaiting aim ticket⟩ ∈ beat.after.session.tasks

def Forgotten (hash : Hash) (beats : List Beat) : Prop :=
  ∀ between arrival rest raw, beats = between ++ arrival :: rest →
    arrival.inbound? = some raw → (Response.parse raw).hash = some hash →
    arrival.Ignored ∨ ∃ other aim ticket, ticket.hash = hash ∧
      WaitedThrough between other aim ticket ∧ arrival.Reaches other

/-- A call that polls also ends with a timeout when it has no poll left; all other timeouts are
those of a request. -/
structure Session.Punctual (session : Session) (past : List Action) : Prop where
  config : ∀ beat ∈ session.beats past, beat.after.session.config = session.config
  inTime : ∀ {call aim ticket}, ⟨call, .awaiting aim ticket⟩ ∈ (session.after past).tasks →
    WaitedThrough (session.beats past) call aim ticket ∧
      (session.after past).now < ticket.request.sentAt + session.config.requestTimeout
  timedOut : ∀ {earlier beat later call}, session.beats past = earlier ++ beat :: later →
    beat.Finishes call (.failed .timeout) →
    beat.before.session.PollEnds beat.action call ∨
    ∃ ticket, beat.TimesOut call ticket ∧
      ((∃ aim, WaitedThrough earlier call aim ticket) ∨ Asks beat.before beat.after ticket) ∧
      Forgotten ticket.hash later
  reported : ∀ {early action late call outcome}, past = early ++ action :: late →
    (call, outcome) ∈ ((session.after early).act action).1.finished →
    ∃ beat ∈ session.beats past, beat.action = action ∧ beat.Finishes call outcome

namespace Session

variable {first last session : Session} {beats later : List Beat} {beat : Beat} {call : CallId}
  {aim : Aim} {ticket : Ticket}

theorem Ran.waited (ran : Ran first beats last)
    (idle : ⟨call, .awaiting aim ticket⟩ ∉ first.tasks)
    (waits : ⟨call, .awaiting aim ticket⟩ ∈ last.tasks) : WaitedThrough beats call aim ticket := by
  induction ran with
  | refl => exact absurd waits idle
  | @snoc beats beat ran sound ih =>
      rcases sound.awaiting waits with old | ⟨asks, -⟩
      · obtain ⟨earlier, sending, since, rfl, asks, began, still⟩ := ih old
        refine ⟨earlier, sending, since ++ [beat], by simp, asks, began, ?_⟩
        intro next member
        rcases List.mem_append.mp member with before | here
        · exact still next before
        · cases List.mem_singleton.mp here
          exact ⟨sound.passive old waits, waits⟩
      · exact ⟨beats, beat, [], rfl, asks, waits, fun _ none => nomatch none⟩

theorem Ran.forgotten {hash : Hash} {earlier : List CallId} (ran : Ran first beats last)
    (coherent : Turn.Coherent earlier [] (start first)) (free : first.Free hash) :
    Forgotten hash beats := by
  intro between arrival rest raw split handled named
  subst split
  obtain ⟨ran, sound, -⟩ := ran.split
  rcases sound.heard handled named with ignored | ⟨other, aim, ticket, rfl, waits, reaches⟩
  · exact .inl ignored
  · refine .inr ⟨other, aim, ticket, rfl, ran.waited ?_ waits, reaches⟩
    intro old
    have registered := coherent.pending_iff.mpr ⟨List.not_mem_nil, aim, ticket, old, rfl⟩
    cases free.caller.symm.trans registered

theorem Ran.config (ran : Ran first beats last) :
    last.config = first.config ∧ ∀ beat ∈ beats, beat.after.session.config = first.config := by
  induction ran with
  | refl => exact ⟨rfl, fun _ none => nomatch none⟩
  | @snoc beats beat ran sound ih =>
      have here := sound.config.trans ih.1
      refine ⟨here, fun other member => ?_⟩
      rcases List.mem_append.mp member with before | newest
      · exact ih.2 other before
      · rw [List.mem_singleton.mp newest]
        exact here

theorem path_finished {action : Action} {turn last : Turn} {stops : List Turn} {outcome : Outcome}
    (path : Turn.Path action turn stops last) (ended : (call, outcome) ∈ last.finished)
    (new : (call, outcome) ∉ turn.finished) :
    ∃ beat ∈ Turn.beats action turn stops, beat.action = action ∧ beat.Finishes call outcome := by
  induction path with
  | refl => exact absurd ended new
  | @head turn next last rest sound path ih =>
      by_cases here : (call, outcome) ∈ next.finished
      · exact ⟨_, List.mem_cons_self, rfl, here, new⟩
      · obtain ⟨beat, member, finishes⟩ := ih ended here
        exact ⟨beat, List.mem_cons_of_mem _ member, finishes⟩

theorem mem_beats_of_action {early late : List Action} {action : Action}
    (member : beat ∈ Turn.beats action (start (session.after early))
      ((start (session.after early)).stops action)) :
    beat ∈ session.beats (early ++ action :: late) := by
  rw [beats_append, Session.beats]
  exact List.mem_append_right _ (List.mem_append_left _ member)

theorem exists_beat {config : Config} {hashes : HashSource} {early : List Action} {action : Action}
    {outcome : Outcome} (fresh : Session.ofConfig config hashes = .ok session)
    (ended : (call, outcome) ∈ ((session.after early).act action).1.finished) :
    ∃ beat ∈ Turn.beats action (start (session.after early))
      ((start (session.after early)).stops action),
      beat.action = action ∧ beat.Finishes call outcome := by
  obtain ⟨-, untimed, inTime⟩ := ran_beats fresh early
  have h := (history_of_ofConfig fresh early).coherent
  obtain ⟨path, -⟩ := Turn.path_act h untimed inTime action
  exact path_finished path ended List.not_mem_nil

theorem reported {config : Config} {hashes : HashSource} {early late : List Action}
    {action : Action} {outcome : Outcome} (fresh : Session.ofConfig config hashes = .ok session)
    (ended : (call, outcome) ∈ ((session.after early).act action).1.finished) :
    ∃ beat ∈ session.beats (early ++ action :: late),
      beat.action = action ∧ beat.Finishes call outcome := by
  obtain ⟨beat, member, finishes⟩ := exists_beat fresh ended
  exact ⟨beat, mem_beats_of_action member, finishes⟩

theorem deadlines_kept {config : Config} {hashes : HashSource}
    (fresh : Session.ofConfig config hashes = .ok session) (past : List Action) :
    session.Punctual past := by
  obtain ⟨ran, -, inTime⟩ := ran_beats fresh past
  have idle {call : CallId} {aim : Aim} {ticket : Ticket} :
      ⟨call, .awaiting aim ticket⟩ ∉ session.tasks := not_mem_tasks_ofConfig fresh
  refine ⟨ran.config.2, fun waits => ⟨ran.waited idle waits, ?_⟩, ?_, ?_⟩
  · rw [← ran.config.1]
    exact inTime waits
  · intro earlier beat later call split finishes
    rw [split] at ran
    obtain ⟨before, sound, after⟩ := ran.split
    refine (sound.timedOut finishes).imp_right ?_
    rintro ⟨ticket, timesOut⟩
    obtain ⟨_, -, coherent⟩ := sound.coherent
    exact ⟨ticket, timesOut,
      timesOut.since.imp_left fun ⟨aim, waits⟩ => ⟨aim, before.waited idle waits⟩,
      after.forgotten coherent.next timesOut.free⟩
  · rintro early action late call outcome rfl ended
    exact reported fresh ended

def impatientConfig : Config where
  requestTimeout := 40

def repeatedCalls : List Action :=
  [.perform (.call ⟨9, 2, []⟩), .perform (.jump 40), .perform (.call ⟨9, 3, []⟩),
    .perform (.reply 0 [7] none none)]

theorem deadlines_kept_repeatedCalls : ∃ session,
    Session.ofConfig impatientConfig (.scripted [] ⟨[1, 2, 3, 4, 5, 6, 7, 8], rfl⟩) = .ok session ∧
    session.Punctual repeatedCalls ∧
    ∃ beat ∈ session.beats repeatedCalls, beat.action = .perform (.jump 40) ∧
      beat.Finishes 0 (.failed .timeout) := by
  have fresh : Session.ofConfig impatientConfig
      (.scripted [] ⟨[1, 2, 3, 4, 5, 6, 7, 8], rfl⟩) = .ok _ := rfl
  have punctual := deadlines_kept fresh repeatedCalls
  have second : repeatedCalls = [.perform (.call ⟨9, 2, []⟩)] ++ .perform (.jump 40) ::
      [.perform (.call ⟨9, 3, []⟩), .perform (.reply 0 [7] none none)] := rfl
  exact ⟨_, fresh, punctual, punctual.reported second (List.mem_singleton_self _)⟩

end Session

end NodeProtocol.Client
