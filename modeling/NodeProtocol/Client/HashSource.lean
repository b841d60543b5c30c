import NodeProtocol.Frame
import NodeProtocol.Keccak.Digest
import NodeProtocol.Random.Seed

namespace NodeProtocol.Client

structure HashSource where
  hash : Nat → Hash
  drawn : Nat

namespace HashSource

def draw (source : HashSource) : Hash × HashSource :=
  (source.hash source.drawn, { source with drawn := source.drawn + 1 })

def scripted (script : List Hash) (fallback : Hash) : HashSource :=
  ⟨fun n => script[n]?.getD fallback, 0⟩

def seededHash (seed : UInt64) (n : Nat) : Hash :=
  let digest := Keccak.keccak256 (KeyStream.chunk (Seed.key seed) n ++ Bytes.ofNat 8 n)
  ⟨digest.val.take 8, by simp [digest.property]⟩

def seeded (seed : UInt64) : HashSource :=
  ⟨seededHash seed, 0⟩

end HashSource

end NodeProtocol.Client
