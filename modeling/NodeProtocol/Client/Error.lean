import NodeProtocol.Abi.Error
import NodeProtocol.Cache.Config

namespace NodeProtocol.Client

inductive TransportError
  | connectionLost (text : String)
  | payloadTooLarge
  | io (text : String)
  deriving DecidableEq, Repr

def TransportError.message : TransportError → String
  | connectionLost text => "Connection lost: " ++ text
  | payloadTooLarge => "Payload too large for transport"
  | io text => "I/O error: " ++ text

inductive CallError
  | transport (cause : TransportError)
  | abi (cause : Abi.Error)
  | cache (cause : Cache.Error)
  | timeout
  | expired
  /-- The registration was dropped without an answer. -/
  | channelClosed
  | closed
  | serviceMismatch (expected received : UInt8)
  | versionMismatch (expected received : UInt8)
  | hashExhausted
  deriving DecidableEq, Repr

def CallError.message : CallError → String
  | transport cause => "Transport error: " ++ cause.message
  | abi cause => "ABI error: " ++ cause.message
  | cache cause => "Cache error: " ++ cause.message
  | timeout => "Request timed out"
  | expired => "Reply arrived for an expired request"
  | channelClosed => "Response channel closed"
  | closed => "Client closed"
  | serviceMismatch expected received =>
    "Service mismatch: expected " ++ Text.decimal expected.toNat ++ ", received " ++
      Text.decimal received.toNat
  | versionMismatch expected received =>
    "Protocol version mismatch: expected " ++ Text.decimal expected.toNat ++ ", received " ++
      Text.decimal received.toNat
  | hashExhausted => "Could not find a free correlation hash"

/-- A cleared in-flight table means that the client was closed. -/
def CallError.ofCache : Cache.Error → CallError
  | .closed => closed
  | cause => cache cause

end NodeProtocol.Client
