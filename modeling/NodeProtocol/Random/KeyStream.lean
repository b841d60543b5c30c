import NodeProtocol.Bytes

namespace NodeProtocol.KeyStream

abbrev State := Vector UInt32 16

abbrev Key := Vector UInt32 8

def rotateLeft (word count : UInt32) : UInt32 :=
  word <<< count ||| word >>> (32 - count)

def quarterRound (s : State) (a b c d : Fin 16) : State :=
  let s := s.set a (s[a] + s[b])
  let s := s.set d (rotateLeft (s[d] ^^^ s[a]) 16)
  let s := s.set c (s[c] + s[d])
  let s := s.set b (rotateLeft (s[b] ^^^ s[c]) 12)
  let s := s.set a (s[a] + s[b])
  let s := s.set d (rotateLeft (s[d] ^^^ s[a]) 8)
  let s := s.set c (s[c] + s[d])
  s.set b (rotateLeft (s[b] ^^^ s[c]) 7)

def quarters : List (Fin 16 × Fin 16 × Fin 16 × Fin 16) :=
  [(0, 4, 8, 12), (1, 5, 9, 13), (2, 6, 10, 14), (3, 7, 11, 15),
    (0, 5, 10, 15), (1, 6, 11, 12), (2, 7, 8, 13), (3, 4, 9, 14)]

def doubleRound (s : State) : State :=
  quarters.foldl (fun s (a, b, c, d) => quarterRound s a b c d) s

def start (key : Key) (block : Nat) : State :=
  #v[0x61707865, 0x3320646e, 0x79622d32, 0x6b206574,
    key[0], key[1], key[2], key[3], key[4], key[5], key[6], key[7],
    UInt32.ofNat block, UInt32.ofNat (block >>> 32), 0, 0]

def blockWords (key : Key) (block : Nat) : List UInt32 :=
  let first := start key block
  let last := Nat.repeat doubleRound 6 first
  (first.zipWith (· + ·) last).toList

def wordBytes (word : UInt32) : Bytes :=
  (Bytes.ofNat 4 word.toNat).reverse

def blockBytes (key : Key) (block : Nat) : Bytes :=
  (blockWords key block).flatMap wordBytes

/-- The 32 bytes of the stream with the given number: the first or the second half of a block. -/
def chunk (key : Key) (number : Nat) : Bytes :=
  let block := blockBytes key (number / 2)
  if number % 2 = 0 then block.take 32 else block.drop 32

end NodeProtocol.KeyStream
