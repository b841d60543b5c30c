import NodeProtocol.Abi.Signature
import NodeProtocol.Client.Registry
import NodeProtocol.Clock
import NodeProtocol.TxStatus

namespace NodeProtocol.Client

structure Query where
  service : UInt8
  function : UInt8
  payload : Bytes
  deriving DecidableEq

namespace Query

def frame (query : Query) (version : UInt8) (hash : Option Hash) : Bytes :=
  Request.encode ⟨⟨version, query.service, query.function, hash⟩, query.payload⟩

end Query

inductive Aim
  | reply
  | tokens (types : List Abi.Ty)
  | terminalStatus (query : Query) (pollsLeft : Nat)

inductive Stage
  | awaiting (aim : Aim) (ticket : Ticket)
  | told (aim : Aim) (ticket : Ticket) (result : Except CallError Reply)
  | pausing (query : Query) (pollsLeft : Nat) (since : Nat)

namespace Stage

def isTold : Stage → Bool
  | told .. => true
  | _ => false

def due (config : Config) : Stage → Nat
  | awaiting _ ticket | told _ ticket _ => ticket.request.sentAt + config.requestTimeout
  | pausing _ _ since => since + sleepLength config.pollInterval

end Stage

structure Task where
  call : CallId
  stage : Stage

inductive Outcome
  | reply (reply : Reply)
  | tokens (tokens : List Abi.Token)
  | notified
  | status (status : TxStatus)
  | aborted
  | failed (error : CallError)

/-- The leading word of the body as a status code. A body that is too short reads as zero, and
a word that is no code as the largest code. -/
def statusCode (body : Bytes) : Nat :=
  match (Abi.Kind.uint 16).decode body 0 with
  | .ok (.uint code) => min code 65535
  | _ => 0

def terminalStatus? (body : Bytes) : Option TxStatus :=
  (TxStatus.ofCode? (statusCode body)).filter TxStatus.isTerminal

end NodeProtocol.Client
