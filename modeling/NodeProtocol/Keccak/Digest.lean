import NodeProtocol.Hex
import NodeProtocol.Keccak.Sponge

namespace NodeProtocol.Keccak

abbrev Digest := BytesOf 32

def keccak256 (data : Bytes) : Digest :=
  ⟨(Sponge.digest.absorb data).squeeze 32, Sponge.length_squeeze ..⟩

inductive HashError
  | invalidHex (cause : Hex.Error)
  | rate (cause : RateError)
  deriving DecidableEq, Repr

def HashError.message : HashError → String
  | invalidHex cause => "Invalid hex message: " ++ cause.message
  | rate cause => cause.message

def hashHex (message : String) (rateBits length : Nat) : Except HashError String := do
  let data ← (Hex.decode (Hex.dropMark message)).mapError .invalidHex
  let sponge ← (Sponge.withRate rateBits).mapError .rate
  return Hex.encode ((sponge.absorb data).squeeze length)

end NodeProtocol.Keccak
