import NodeProtocol.Cache.Basic
import NodeProtocol.Client.Config
import NodeProtocol.Client.Error
import NodeProtocol.Client.HashSource

/-!
# The registry of a client

A client keeps two tables by correlation hash: the calls that wait for a reply, and the requests
in flight. The second one is a cache, so that its entries can die or be evicted while the call
still waits.

* `register` draws a hash that no waiting call has and enters the call in both tables. The
  `Ticket` it gives is the hash under which the call waits, with its request.
* `forget` removes a hash from both.
* `receive` matches an inbound frame to the call that waits under its hash and judges the reply.
* `stop` answers every waiting call with one failure and leaves the requests in flight alone.
-/

namespace NodeProtocol.Client

abbrev CallId := Nat

structure RequestInfo where
  service : UInt8
  function : UInt8
  sentAt : Nat
  deriving DecidableEq, Repr

structure Ticket where
  hash : Hash
  request : RequestInfo
  deriving DecidableEq

structure Reply where
  version : UInt8
  service : UInt8
  body : Bytes
  deriving DecidableEq

def maxHashDraws : Nat := 16

structure Registry where
  config : Config
  pending : Table Hash CallId
  inFlight : Cache Hash RequestInfo
  hashes : HashSource
  receiving : Bool

namespace Registry

def ofConfig (config : Config) (hashes : HashSource) : Except CallError Registry := do
  config.cache.check.mapError CallError.ofCache
  return {
    config
    pending := .empty
    inFlight := .ofConfig config.cache
    hashes
    receiving := true }

def drawFree (pending : Table Hash CallId) : (draws : Nat) → HashSource → Option Hash × HashSource
  | 0, source => (none, source)
  | draws + 1, source =>
    let (hash, source) := source.draw
    if pending.contains hash then drawFree pending draws source else (some hash, source)

def register (registry : Registry) (call : CallId) (request : RequestInfo) :
    Except CallError Ticket × Registry :=
  if registry.inFlight.closed then (.error .closed, registry)
  else
    let (free, hashes) := drawFree registry.pending maxHashDraws registry.hashes
    let registry := { registry with hashes }
    match free with
    | none => (.error .hashExhausted, registry)
    | some hash =>
      match registry.inFlight.put hash request request.sentAt with
      | (.ok _, inFlight) =>
        (.ok ⟨hash, request⟩,
          { registry with inFlight, pending := registry.pending.insert hash call })
      | (.error cause, inFlight) => (.error (.ofCache cause), { registry with inFlight })

def forget (registry : Registry) (hash : Hash) (now : Nat) : Option CallId × Registry :=
  (registry.pending.get? hash,
    { registry with
      pending := registry.pending.erase hash
      inFlight := (registry.inFlight.remove hash now).2 })

def judge (config : Config) (request : Option RequestInfo) (response : Response) :
    Except CallError Reply :=
  match request with
  | none => .error .expired
  | some request =>
    if request.service ≠ response.service then
      .error (.serviceMismatch request.service response.service)
    else if response.version ≠ config.protocolVersion then
      .error (.versionMismatch config.protocolVersion response.version)
    else .ok ⟨response.version, response.service, response.body⟩

def receive (registry : Registry) (raw : Bytes) (now : Nat) :
    Option (CallId × Except CallError Reply) × Registry :=
  let response := Response.parse raw
  match response.hash with
  | none => (none, registry)
  | some hash =>
    let (request, inFlight) := registry.inFlight.remove hash now
    match registry.pending.get? hash with
    | none => (none, { registry with inFlight })
    | some call =>
      (some (call, judge registry.config request response),
        { registry with inFlight, pending := registry.pending.erase hash })

def stop (registry : Registry) : List CallId × Registry :=
  (registry.pending.pairs.map (·.2), { registry with pending := .empty, receiving := false })

def clearInFlight (registry : Registry) : Registry :=
  { registry with inFlight := registry.inFlight.clear }

end Registry

end NodeProtocol.Client
