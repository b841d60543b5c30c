import NodeProtocol.Cache.Config
import NodeProtocol.Cache.Ranking
import NodeProtocol.Table

/-!
# The cache

A cache holds a bounded number of entries. Over capacity, the entry that was used least recently
goes first, and an entry dies a fixed time after it was put, however often it is used. Beside the
table of entries stand two rankings of the keys: by the tick of the last use, and by the time and
tick of insertion. All entries of a cache live equally long, so that the second ranking is also
the order in which they die.

* `put`, `get`, `withValue`, `remove` and `contains` are what a user sees; a dead entry is as good
  as absent, except that `put` hands out the value it replaces, dead or alive.
* `sweep` removes dead entries from the front of the insertion ranking up to the first one that
  lives.
* After `clear`, the cache takes no more entries.

Operations that change the cache return their result first.
-/

namespace NodeProtocol

structure Stamp where
  time : Nat
  tick : Nat
  deriving DecidableEq, Repr

def Stamp.before (a b : Stamp) : Bool :=
  a.time < b.time || (a.time = b.time && a.tick < b.tick)

structure Cache.Entry (ν : Type) where
  value : ν
  expiresAt : Nat
  inserted : Stamp
  tick : Nat

def Cache.Entry.isLive (entry : Cache.Entry ν) (now : Nat) : Bool :=
  now < entry.expiresAt

structure Cache (κ ν : Type) where
  capacity : Nat
  lifeSpan : Nat
  entries : Table κ (Cache.Entry ν)
  /-- The least recently used key first. -/
  recency : Ranking Nat κ
  /-- The key whose entry dies next first. -/
  insertion : Ranking Stamp κ
  nextTick : Nat
  closed : Bool

namespace Cache

def ofConfig (config : Config) : Cache κ ν :=
  { capacity := config.capacity
    lifeSpan := config.lifeSpan
    entries := .empty
    recency := []
    insertion := []
    nextTick := 0
    closed := false }

def size (cache : Cache κ ν) : Nat :=
  cache.entries.size

def isEmpty (cache : Cache κ ν) : Bool :=
  cache.size = 0

def clear (cache : Cache κ ν) : Cache κ ν :=
  { cache with entries := .empty, recency := [], insertion := [], closed := true }

variable [DecidableEq κ]

def take (cache : Cache κ ν) (key : κ) : Option ν × Cache κ ν :=
  match cache.entries.get? key with
  | none => (none, cache)
  | some entry =>
    (some entry.value,
      { cache with
        entries := cache.entries.erase key
        recency := cache.recency.erase entry.tick
        insertion := cache.insertion.erase entry.inserted })

def shrink : (order : Ranking Nat κ) → Cache κ ν → Cache κ ν
  | [], cache => cache
  | (_, key) :: order, cache =>
    if cache.size ≤ cache.capacity then cache else shrink order (cache.take key).2

/-- The time of death, `now + lifeSpan`, is taken to be one that the clock can represent. -/
def enlist (cache : Cache κ ν) (key : κ) (value : ν) (now : Nat) : Cache κ ν :=
  let tick := cache.nextTick
  let stamp : Stamp := ⟨now, tick⟩
  { cache with
    entries := cache.entries.insert key ⟨value, now + cache.lifeSpan, stamp, tick⟩
    recency := Ranking.insert (· < ·) tick key cache.recency
    insertion := Ranking.insert Stamp.before stamp key cache.insertion
    nextTick := tick + 1 }

def insert (cache : Cache κ ν) (key : κ) (value : ν) (now : Nat) : Option ν × Cache κ ν :=
  let (previous, cache) := cache.take key
  let cache := cache.enlist key value now
  (previous, shrink cache.recency cache)

def live? (cache : Cache κ ν) (key : κ) (now : Nat) : Option (Entry ν) :=
  (cache.entries.get? key).filter (·.isLive now)

def renew (cache : Cache κ ν) (key : κ) (entry : Entry ν) : Cache κ ν :=
  let tick := cache.nextTick
  { cache with
    entries := cache.entries.insert key { entry with tick }
    recency := Ranking.insert (· < ·) tick key (cache.recency.erase entry.tick)
    nextTick := tick + 1 }

def withValue (cache : Cache κ ν) (key : κ) (run : ν → ρ × ν) (now : Nat) :
    Option ρ × Cache κ ν :=
  match cache.live? key now with
  | none => (none, cache)
  | some entry =>
    let (answer, value) := run entry.value
    (some answer, cache.renew key { entry with value })

def get (cache : Cache κ ν) (key : κ) (now : Nat) : Option ν × Cache κ ν :=
  cache.withValue key (fun value => (value, value)) now

def update (cache : Cache κ ν) (key : κ) (change : ν → ν) (now : Nat) : Option ν × Cache κ ν :=
  cache.withValue key (fun value => (change value, change value)) now

def put (cache : Cache κ ν) (key : κ) (value : ν) (now : Nat) :
    Except Error (Option ν) × Cache κ ν :=
  if cache.closed then (.error .closed, cache)
  else
    let (previous, cache) := cache.insert key value now
    (.ok previous, cache)

/-- A dead entry goes as well, but its value is not handed out. -/
def remove (cache : Cache κ ν) (key : κ) (now : Nat) : Option ν × Cache κ ν :=
  ((cache.live? key now).map (·.value), (cache.take key).2)

def contains (cache : Cache κ ν) (key : κ) (now : Nat) : Bool :=
  (cache.live? key now).isSome

def isDead (cache : Cache κ ν) (key : κ) (now : Nat) : Bool :=
  !cache.contains key now

def sweep (cache : Cache κ ν) (now : Nat) : Nat × Cache κ ν :=
  let dead := cache.insertion.takeWhile fun (_, key) => cache.isDead key now
  (dead.length, dead.foldl (fun cache (_, key) => (cache.take key).2) cache)

end Cache

end NodeProtocol
