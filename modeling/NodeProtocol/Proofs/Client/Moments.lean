import NodeProtocol.Proofs.Client.Runs
import NodeProtocol.Proofs.Client.Strides

namespace NodeProtocol.Client

open Cache

namespace Turn

def expireEach (turn : Turn) : List CallId → List Turn
  | [] => []
  | call :: calls => turn.expire call :: (turn.expire call).expireEach calls

def clockStops (turn : Turn) (now : Nat) (inFlight : Cache Hash RequestInfo) : List Turn :=
  let set := turn.setClock now inFlight
  set :: set.expireEach set.session.dueCalls

def passStops (turn : Turn) (duration : Nat) : List Turn :=
  let session := turn.session
  let stop := session.now + duration
  let interval := session.config.cache.sweepInterval
  turn.clockStops stop (session.registry.inFlight.sweepThrough interval session.now stop)

def passAllStops (turn : Turn) (remaining : Nat) : List Turn :=
  if remaining = 0 then []
  else
    let duration := hop turn.session remaining
    turn.passStops duration ++ passAllStops (turn.pass duration) (remaining - duration)
termination_by remaining
decreasing_by
  have := hop_pos turn.session (Nat.pos_of_ne_zero ‹remaining ≠ 0›)
  have := hop_le turn.session remaining
  omega

def jumpStops (turn : Turn) (duration : Nat) : List Turn :=
  let session := turn.session
  let stop := session.now + duration
  let interval := session.config.cache.sweepInterval
  turn.clockStops stop (session.registry.inFlight.sweepAfter interval session.now stop)

/-- The turns that an action goes through, its last one included. -/
def stops (turn : Turn) : Action → List Turn
  | .perform (.sleep duration) => turn.passAllStops (sleepLength duration)
  | .perform (.jump duration) => turn.jumpStops duration
  | action => [(turn.act action).2]

end Turn

namespace Session

def moments (session : Session) : List Action → List Session
  | [] => []
  | action :: actions =>
    ((Turn.start session).stops action).map (·.session) ++ (session.act action).2.moments actions

inductive Strides : Session → List Session → Session → Prop
  | refl {session} : Strides session [] session
  | head {first second last states} (stride : Stride first second)
      (strides : Strides second states last) : Strides first (second :: states) last

namespace Strides

variable {first middle last : Session} {states others : List Session}

theorem single (stride : Stride first last) : Strides first [last] last :=
  .head stride .refl

theorem append (h : Strides first states middle) (h' : Strides middle others last) :
    Strides first (states ++ others) last := by
  induction h with
  | refl => exact h'
  | head stride _ ih => exact .head stride (ih h')

theorem sound (h : Strides first states last) (sound : first.registry.Sound) :
    last.registry.Sound := by
  induction h with
  | refl => exact sound
  | head stride _ ih => exact ih stride.sound

theorem receiving (h : Strides first states last) (reads : last.registry.receiving) :
    first.registry.receiving := by
  induction h with
  | refl => exact reads
  | head stride _ ih => exact stride.receiving (ih reads)

end Strides

end Session

namespace Turn

open Session (Stride Strides)

variable {turn : Turn}

theorem strides_expireEach (sound : turn.session.registry.Sound) (calls : List CallId) :
    Strides turn.session ((turn.expireEach calls).map (·.session))
      (calls.foldl expire turn).session := by
  induction calls generalizing turn with
  | nil => exact .refl
  | cons call calls ih =>
      have first := stride_expire sound call
      exact .head first (ih first.sound)

theorem strides_clock {now : Nat} {inFlight : Cache Hash RequestInfo}
    (sound : turn.session.registry.Sound) (later : turn.session.now ≤ now)
    (swept : Swept now turn.session.registry.inFlight inFlight) :
    Strides turn.session ((turn.clockStops now inFlight).map (·.session))
      (turn.setClock now inFlight).fireDue.session := by
  have set : Stride turn.session (turn.setClock now inFlight).session := .clock sound later swept
  exact .head set (strides_expireEach set.sound _)

theorem strides_passAll (sound : turn.session.registry.Sound) (remaining : Nat) :
    Strides turn.session ((turn.passAllStops remaining).map (·.session))
      (turn.passAll remaining).session := by
  induction turn, remaining using Turn.passAll.induct with
  | case1 turn =>
      rw [passAllStops, passAll, if_pos rfl, if_pos rfl]
      exact .refl
  | case2 turn remaining more duration ih =>
      rw [passAllStops, passAll, if_neg more, if_neg more]
      dsimp only
      rw [List.map_append]
      have first : Strides turn.session ((turn.passStops duration).map (·.session))
          (turn.pass duration).session :=
        strides_clock sound (Nat.le_add_right ..) (swept_sweepThrough ..)
      exact first.append (ih (first.sound sound))

theorem strides_stops (sound : turn.session.registry.Sound) (action : Action) :
    Strides turn.session ((turn.stops action).map (·.session)) (turn.act action).2.session := by
  unfold stops
  split
  case h_1 duration => exact strides_passAll sound _
  case h_2 duration => exact strides_clock sound (Nat.le_add_right ..) (swept_sweepAfter ..)
  case h_3 sleeps jumps =>
    exact .single (stride_act sound fun duration => ⟨sleeps duration, jumps duration⟩)

end Turn

namespace Session

theorem strides_moments {session : Session} (sound : session.registry.Sound)
    (past : List Action) : Strides session (session.moments past) (session.after past) := by
  induction past generalizing session with
  | nil => exact .refl
  | cons action past ih =>
      have sound : (Turn.start session).session.registry.Sound := sound
      have first := Turn.strides_stops sound action
      exact first.append (ih (first.sound sound))

/-- The call was registered under the hash at a moment of the run, and in all later ones. -/
def RegisteredAt (session : Session) (past : List Action) (hash : Hash) (call : CallId)
    (moment : Session) : Prop :=
  ∃ earlier before later, session :: session.moments past = earlier ++ before :: moment :: later ∧
    before.caller? hash = none ∧ moment.registrations = before.registrations + 1 ∧
    (∀ state ∈ moment :: later, state.caller? hash = some call) ∧
    (moment :: later).getLast? = some (session.after past)

/-- What the table in flight holds of a request that entered it at a moment. -/
structure Retains (hash : Hash) (moment session : Session) : Prop where
  config : session.config = moment.config
  own : ∀ {entry}, session.inFlight? hash = some entry → entry.tick + 1 = moment.registrations ∧
    entry.expiresAt = moment.now + moment.config.cache.lifeSpan
  kept : session.now < moment.now + moment.config.cache.lifeSpan →
    session.registrations < moment.registrations + moment.config.cache.capacity →
    ∃ entry, session.inFlight? hash = some entry

section

variable {first last moment session : Session} {states : List Session} {hash : Hash} {call : CallId}

theorem Enters.retains (stride : Stride first moment) (h : Enters hash first moment) :
    Retains hash moment moment where
  config := rfl
  own found := by
    obtain ⟨entry, here, tick, expires⟩ := h.entry
    cases here.symm.trans found
    rw [h.registrations, h.now, stride.config]
    exact ⟨congrArg (· + 1) tick, expires⟩
  kept _ _ := by
    obtain ⟨entry, here, -⟩ := h.entry
    exact ⟨entry, here⟩

theorem Retains.stays (h : Retains hash moment first) (stride : Stride first last)
    (stays : Stays hash call first last) : Retains hash moment last where
  config := stride.config.trans h.config
  own found := h.own (stays.old found)
  kept alive recent := by
    obtain ⟨entry, found⟩ := h.kept (Nat.lt_of_le_of_lt stride.now_le alive)
      (Nat.lt_of_le_of_lt stride.registrations_le recent)
    obtain ⟨tick, expires⟩ := h.own found
    refine ⟨entry, stays.kept found (by rwa [expires]) ?_⟩
    rw [h.config]
    omega

theorem Strides.retains (strides : Strides first states last) (reads : last.registry.receiving)
    (registered : ∀ state ∈ first :: states, state.caller? hash = some call)
    (h : Retains hash moment first) : Retains hash moment last := by
  induction strides with
  | refl => exact h
  | head stride strides ih =>
      rw [List.forall_mem_cons] at registered
      rcases stride.origin (strides.receiving reads) (registered.2 _ List.mem_cons_self) with
        stays | enters
      · exact ih reads registered.2 (h.stays stride stays)
      · cases enters.unused.symm.trans registered.1

theorem Strides.getLast? (strides : Strides first states last) :
    (first :: states).getLast? = some last := by
  induction strides with
  | refl => rfl
  | head _ _ ih => rw [List.getLast?_cons_cons, ih]

theorem Strides.origin (strides : Strides first states last) (reads : last.registry.receiving)
    (registered : last.caller? hash = some call) :
    (∀ state ∈ first :: states, state.caller? hash = some call) ∨
    ∃ earlier before moment later, first :: states = earlier ++ before :: moment :: later ∧
      Stride before moment ∧ Enters hash before moment ∧ Strides moment later last ∧
      ∀ state ∈ moment :: later, state.caller? hash = some call := by
  induction strides with
  | refl => exact .inl (List.forall_mem_singleton.mpr registered)
  | @head first second last states stride strides ih =>
      -- The last time at which the hash entered is the one that counts.
      rcases ih reads registered with always |
        ⟨earlier, before, moment, later, split, entered, enters, rest, since⟩
      · rcases stride.origin (strides.receiving reads) (always _ List.mem_cons_self) with
          stays | enters
        · exact .inl (List.forall_mem_cons.mpr ⟨stays.caller, always⟩)
        · exact .inr ⟨[], first, second, states, rfl, stride, enters, strides, always⟩
      · exact .inr ⟨first :: earlier, before, moment, later, congrArg (first :: ·) split, entered,
          enters, rest, since⟩

theorem sound_ofConfig {config : Config} {hashes : HashSource}
    (fresh : Session.ofConfig config hashes = .ok session) : session.registry.Sound := by
  obtain ⟨registry, made, rest⟩ := bind_eq_ok.mp fresh
  obtain ⟨_, checked, same⟩ := bind_eq_ok.mp made
  cases same
  cases rest
  refine ⟨consistent_ofConfig _, rfl, rfl, Nat.pos_of_ne_zero fun none => ?_⟩
  rw [Cache.Config.check, if_pos none] at checked
  cases checked

theorem exists_registeredAt {config : Config} {hashes : HashSource} {past : List Action}
    (fresh : Session.ofConfig config hashes = .ok session)
    (reads : (session.after past).registry.receiving)
    (registered : (session.after past).caller? hash = some call) :
    ∃ moment, session.RegisteredAt past hash call moment ∧
      Retains hash moment (session.after past) := by
  have strides := strides_moments (sound_ofConfig fresh) past
  rcases strides.origin reads registered with always |
    ⟨earlier, before, moment, later, split, entered, enters, rest, since⟩
  · have idle : session.caller? hash = none := by
      rw [caller?, (ofConfig_eq_ok fresh).2.2.1]
      rfl
    cases idle.symm.trans (always session List.mem_cons_self)
  · exact ⟨moment, ⟨earlier, before, later, split, enters.unused, enters.registrations, since,
      rest.getLast?⟩, rest.retains reads since (enters.retains entered)⟩

end

end Session

end NodeProtocol.Client
