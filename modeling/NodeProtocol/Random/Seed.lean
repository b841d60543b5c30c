import NodeProtocol.Random.KeyStream

namespace NodeProtocol.Seed

def step (state : UInt64) : UInt64 :=
  state * 6364136223846793005 + 11634580027462260723

def rotateRight (word count : UInt32) : UInt32 :=
  word >>> count ||| word <<< (32 - count)

def output (state : UInt64) : UInt32 :=
  let mixed := ((state >>> 18) ^^^ state) >>> 27
  rotateRight mixed.toUInt32 (state >>> 59).toUInt32

def key (seed : UInt64) : KeyStream.Key :=
  Vector.ofFn fun i => output (Nat.repeat step (i.val + 1) seed)

end NodeProtocol.Seed
