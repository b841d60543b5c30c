import NodeProtocol.Client.Session

namespace NodeProtocol.Client

inductive Step
  | call (query : Query)
  | callAbi (service function : UInt8) (signature : Abi.Signature) (args : List Abi.Token)
      (returns : List Abi.Ty)
  | notify (query : Query)
  | pollStatus (query : Query) (maxPolls : Nat)
  | abort (call : CallId)
  | reply (index : Nat) (body : Bytes) (version service : Option UInt8)
  | deliver (raw : Bytes)
  | sleep (duration : Nat)
  | jump (duration : Nat)
  | close
  | releaseClient
  | disconnectNode
  | failNextSend (error : TransportError)
  | failReceive (error : TransportError)

namespace Turn

def begin (turn : Turn) : CallId × Turn :=
  (turn.session.started, turn.modify fun session => { session with started := session.started + 1 })

def call (turn : Turn) (query : Query) : Turn :=
  let (call, turn) := turn.begin
  turn.request call .reply query

def callAbi (turn : Turn) (service function : UInt8) (signature : Abi.Signature)
    (args : List Abi.Token) (returns : List Abi.Ty) : Turn :=
  let (call, turn) := turn.begin
  match signature.encodeCall args with
  | .ok payload => turn.request call (.tokens returns) ⟨service, function, payload⟩
  | .error cause => turn.finish call (.failed (.abi cause))

def notify (turn : Turn) (query : Query) : Turn :=
  let (call, turn) := turn.begin
  let (result, turn) := turn.transmit (query.frame turn.session.config.protocolVersion none)
  match result with
  | .ok () => turn.finish call .notified
  | .error cause => turn.finish call (.failed (.transport cause))

def pollStatus (turn : Turn) (query : Query) (maxPolls : Nat) : Turn :=
  let (call, turn) := turn.begin
  turn.poll call query maxPolls

def abort (turn : Turn) (call : CallId) : Turn :=
  match turn.session.stage? call with
  | some (.awaiting _ ticket) | some (.told _ ticket _) =>
    (turn.forget call ticket).finish call .aborted
  | some (.pausing ..) => turn.finish call .aborted
  | none => turn

def stopReceiving (turn : Turn) (error : CallError) : Turn :=
  if turn.session.registry.receiving then
    let (calls, registry) := turn.session.registry.stop
    calls.foldl (fun turn call => turn.tell call (.error error)) (turn.withRegistry registry)
  else turn

def close (turn : Turn) : Turn :=
  (turn.withRegistry turn.session.registry.clearInFlight).stopReceiving .closed

def deliver (turn : Turn) (raw : Bytes) : Except TransportError Unit × Turn :=
  if turn.session.released || !turn.session.node.connected then
    (.error (.connectionLost "Channel closed"), turn)
  else if turn.session.registry.receiving then
    let (answer, registry) := turn.session.registry.receive raw turn.session.now
    let turn := turn.withRegistry registry
    match answer with
    | some (call, result) => (.ok (), turn.tell call result)
    | none => (.ok (), turn)
  else (.ok (), turn)

def disconnectNode (turn : Turn) : Turn :=
  (turn.modify fun session => { session with node := { session.node with connected := false } })
    |>.stopReceiving (.transport (.connectionLost "Stream closed"))

def answerFrame (request : Request) (body : Bytes) (version service : Option UInt8) : Bytes :=
  Response.encode
    { version := version.getD request.header.version
      service := service.getD request.header.service
      hash := request.header.hash
      body }

def whileHeld (turn : Turn) (action : Turn → Turn) : Turn :=
  if turn.session.held then action turn else turn

def perform (turn : Turn) : Step → Option (Except TransportError Unit) × Turn
  | .call query => (none, turn.whileHeld (·.call query))
  | .callAbi service function signature args returns =>
    (none, turn.whileHeld (·.callAbi service function signature args returns))
  | .notify query => (none, turn.whileHeld (·.notify query))
  | .pollStatus query maxPolls => (none, turn.whileHeld (·.pollStatus query maxPolls))
  | .abort call => (none, turn.abort call)
  | .reply index body version service =>
    match turn.session.node.requests[index]? with
    | none => (none, turn)
    | some request =>
      let (result, turn) := turn.deliver (answerFrame request body version service)
      (some result, turn)
  | .deliver raw =>
    let (result, turn) := turn.deliver raw
    (some result, turn)
  | .sleep duration => (none, turn.sleep duration)
  | .jump duration => (none, turn.jump duration)
  | .close => (none, turn.whileHeld (·.close))
  | .releaseClient => (none, turn.modify ({ · with held := false }))
  | .disconnectNode => (none, turn.disconnectNode)
  | .failNextSend error =>
    (none, turn.modify fun session =>
      { session with sendFaults := session.sendFaults ++ [error] })
  | .failReceive error => (none, turn.stopReceiving (.transport error))

end Turn

inductive Action
  | perform (step : Step)
  | wake (call : CallId)

def Turn.act (turn : Turn) : Action → Option (Except TransportError Unit) × Turn
  | .perform step => turn.perform step
  | .wake call => (none, turn.wake call)

structure Report where
  result : Option (Except TransportError Unit)
  sent : List Bytes
  finished : Ranking CallId Outcome

def Report.append (first second : Report) : Report :=
  { first with
    sent := first.sent ++ second.sent
    finished := second.finished.foldr
      (fun place finished => Ranking.insert (· < ·) place.1 place.2 finished) first.finished }

namespace Session

def act (session : Session) (action : Action) : Report × Session :=
  let (result, turn) := (Turn.start session).act action
  (⟨result, turn.sent, turn.finished⟩, turn.session)

def toldCalls (session : Session) : List CallId :=
  (session.tasks.filter (·.stage.isTold)).map (·.call)

def wakeAll : List CallId → Report × Session → Report × Session
  | [], entry => entry
  | call :: calls, (report, session) =>
    let (later, session) := session.act (.wake call)
    wakeAll calls (report.append later, session)

def step (session : Session) (step : Step) : Report × Session :=
  let (report, session) := session.act (.perform step)
  wakeAll session.toldCalls (report, session)

def run (session : Session) : List Step → List (Report × Session)
  | [] => []
  | first :: rest =>
    let next := session.step first
    next :: run next.2 rest

end Session

end NodeProtocol.Client
