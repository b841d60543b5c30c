import NodeProtocol.Cache.Clocked
import NodeProtocol.Client.Call

/-!
# Sessions

A session is a client with its calls in progress, the node at the other end of the transport, and
a clock. A turn is what happens to a session at once; it collects the frames that reached the node
and the calls that finished. Nothing comes between the parts of a turn: a frame is sent as soon as
it is handed to the transport, the two tables of the registry change in one step, and an inbound
frame is handled when it comes, so that none is queued when the pump stops.

* `Turn.request` registers a call and sends its frame. `Turn.tell` tells a call what became of its
  request, and `Turn.wake` lets it run on with that.
* `Turn.fireDue` ends every wait whose time has come: earlier deadlines first, and of equal ones
  the wait that began first.
* `Turn.sleep` stops at every moment at which a wait ends, and `Turn.jump` only at the end.
-/

namespace NodeProtocol.Client

structure Node where
  connected : Bool
  requests : List Request

structure Session where
  registry : Registry
  now : Nat
  /-- The calls in progress, in the order in which their waits began. -/
  tasks : List Task
  node : Node
  sendFaults : List TransportError
  started : Nat
  held : Bool

namespace Session

def ofConfig (config : Config) (hashes : HashSource) : Except CallError Session := do
  return {
    registry := ← Registry.ofConfig config hashes
    now := 0
    tasks := []
    node := ⟨true, []⟩
    sendFaults := []
    started := 0
    held := true }

def config (session : Session) : Config :=
  session.registry.config

def released (session : Session) : Bool :=
  !session.held && session.tasks.isEmpty

def pendingCount? (session : Session) : Option Nat :=
  if session.held then some session.registry.pending.size else none

def stage? (session : Session) (call : CallId) : Option Stage :=
  (session.tasks.find? (·.call = call)).map (·.stage)

def dueCalls (session : Session) : List CallId :=
  let due (task : Task) := task.stage.due session.config
  let order : Ranking Nat CallId :=
    (session.tasks.filter (due · ≤ session.now)).foldl
      (fun order task => Ranking.insert (· < ·) (due task) task.call order) []
  order.map (·.2)

end Session

structure Turn where
  session : Session
  sent : List Bytes
  finished : Ranking CallId Outcome

namespace Turn

def start (session : Session) : Turn :=
  ⟨session, [], []⟩

def modify (turn : Turn) (change : Session → Session) : Turn :=
  { turn with session := change turn.session }

def withRegistry (turn : Turn) (registry : Registry) : Turn :=
  turn.modify ({ · with registry })

def finish (turn : Turn) (call : CallId) (outcome : Outcome) : Turn :=
  { turn with
    session := { turn.session with tasks := turn.session.tasks.filter (·.call ≠ call) }
    finished := Ranking.insert (· < ·) call outcome turn.finished }

def await (turn : Turn) (task : Task) : Turn :=
  turn.modify fun session =>
    { session with tasks := session.tasks.filter (·.call ≠ task.call) ++ [task] }

def transmit (turn : Turn) (frame : Bytes) : Except TransportError Unit × Turn :=
  match turn.session.sendFaults with
  | fault :: sendFaults => (.error fault, turn.modify ({ · with sendFaults }))
  | [] =>
    let node := turn.session.node
    if node.connected then
      let asked := match Request.parse frame with
        | .ok request => if request.header.hash.isSome then [request] else []
        | .error _ => []
      let node := { node with requests := node.requests ++ asked }
      (.ok (), { turn.modify ({ · with node }) with sent := turn.sent ++ [frame] })
    else (.error (.connectionLost "Channel closed"), turn)

def tell (turn : Turn) (call : CallId) (result : Except CallError Reply) : Turn :=
  match turn.session.stage? call with
  | some (.awaiting aim ticket) => turn.await ⟨call, .told aim ticket result⟩
  | _ => turn

/-- Takes back the registration of a call. If the hash was drawn again meanwhile, this takes the
registration of another call, which is left without an answer. -/
def forget (turn : Turn) (call : CallId) (ticket : Ticket) : Turn :=
  let (owner, registry) := turn.session.registry.forget ticket.hash turn.session.now
  let turn := turn.withRegistry registry
  match owner with
  | some other => if other = call then turn else turn.tell other (.error .channelClosed)
  | none => turn

/-- Registers a call and sends its request, and the send completes at once. So does a call that may
wait no time at all. -/
def request (turn : Turn) (call : CallId) (aim : Aim) (query : Query) : Turn :=
  let session := turn.session
  let (drawn, registry) :=
    session.registry.register call ⟨query.service, query.function, session.now⟩
  let turn := turn.withRegistry registry
  match drawn with
  | .error error => turn.finish call (.failed error)
  | .ok ticket =>
    let (result, turn) :=
      turn.transmit (query.frame session.config.protocolVersion (some ticket.hash))
    match result with
    | .error cause => (turn.forget call ticket).finish call (.failed (.transport cause))
    | .ok () =>
      if session.config.requestTimeout = 0 then
        (turn.forget call ticket).finish call (.failed .timeout)
      else turn.await ⟨call, .awaiting aim ticket⟩

def poll (turn : Turn) (call : CallId) (query : Query) : (pollsLeft : Nat) → Turn
  | 0 => turn.finish call (.failed .timeout)
  | pollsLeft + 1 => turn.request call (.terminalStatus query pollsLeft) query

/-- Goes on with a reply. There is a pause after every poll that found no terminal status, the
last one included. -/
def useReply (turn : Turn) (call : CallId) (aim : Aim) (reply : Reply) : Turn :=
  match aim with
  | .reply => turn.finish call (.reply reply)
  | .tokens types =>
    match Abi.decodeArguments types reply.body with
    | .ok tokens => turn.finish call (.tokens tokens)
    | .error cause => turn.finish call (.failed (.abi cause))
  | .terminalStatus query pollsLeft =>
    match terminalStatus? reply.body with
    | some status => turn.finish call (.status status)
    | none =>
      if turn.session.config.pollInterval = 0 then turn.poll call query pollsLeft
      else turn.await ⟨call, .pausing query pollsLeft turn.session.now⟩

/-- Lets a call run on that was told something. Only an answer, good or bad, means that its
registration is gone. -/
def wake (turn : Turn) (call : CallId) : Turn :=
  match turn.session.stage? call with
  | some (.told aim ticket result) =>
    match result with
    | .ok reply => turn.useReply call aim reply
    | .error .channelClosed => (turn.forget call ticket).finish call (.failed .channelClosed)
    | .error error => turn.finish call (.failed error)
  | _ => turn

/-- An answer is looked for before the clock. -/
def expire (turn : Turn) (call : CallId) : Turn :=
  match turn.session.stage? call with
  | some (.awaiting _ ticket) => (turn.forget call ticket).finish call (.failed .timeout)
  | some (.told ..) => turn.wake call
  | some (.pausing query pollsLeft _) => turn.poll call query pollsLeft
  | none => turn

def fireDue (turn : Turn) : Turn :=
  turn.session.dueCalls.foldl expire turn

def hop (session : Session) (remaining : Nat) : Nat :=
  let waits := session.tasks.map fun task => max 1 (task.stage.due session.config - session.now)
  waits.foldl min remaining

theorem hop_le (session : Session) (remaining : Nat) : hop session remaining ≤ remaining := by
  have shrinks (waits : List Nat) : waits.foldl min remaining ≤ remaining := by
    induction waits generalizing remaining with
    | nil => exact Nat.le_refl _
    | cons wait waits ih => exact Nat.le_trans (ih _) (Nat.min_le_left ..)
  exact shrinks _

theorem hop_pos (session : Session) {remaining : Nat} (h : 0 < remaining) :
    0 < hop session remaining := by
  have positive (waits : List Nat) (all : ∀ wait ∈ waits, 0 < wait) :
      0 < waits.foldl min remaining := by
    induction waits generalizing remaining with
    | nil => exact h
    | cons wait waits ih =>
      exact ih (Nat.lt_min.mpr ⟨h, all wait (List.mem_cons_self ..)⟩)
        fun other member => all other (List.mem_cons_of_mem _ member)
  apply positive
  intro wait member
  obtain ⟨task, _, rfl⟩ := List.mem_map.mp member
  omega

def setClock (turn : Turn) (now : Nat) (inFlight : Cache Hash RequestInfo) : Turn :=
  turn.modify fun session => { session with now, registry := { session.registry with inFlight } }

def pass (turn : Turn) (duration : Nat) : Turn :=
  let session := turn.session
  let stop := session.now + duration
  let interval := session.config.cache.sweepInterval
  (turn.setClock stop (session.registry.inFlight.sweepThrough interval session.now stop)).fireDue

def passAll (turn : Turn) (remaining : Nat) : Turn :=
  if remaining = 0 then turn
  else
    let duration := hop turn.session remaining
    passAll (turn.pass duration) (remaining - duration)
termination_by remaining
decreasing_by
  have := hop_pos turn.session (Nat.pos_of_ne_zero ‹remaining ≠ 0›)
  have := hop_le turn.session remaining
  omega

def sleep (turn : Turn) (duration : Nat) : Turn :=
  turn.passAll (sleepLength duration)

def jump (turn : Turn) (duration : Nat) : Turn :=
  let session := turn.session
  let stop := session.now + duration
  let interval := session.config.cache.sweepInterval
  (turn.setClock stop (session.registry.inFlight.sweepAfter interval session.now stop)).fireDue

end Turn

end NodeProtocol.Client
