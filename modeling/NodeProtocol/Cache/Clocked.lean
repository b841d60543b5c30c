import NodeProtocol.Cache.Basic
import NodeProtocol.Clock

namespace NodeProtocol

namespace Cache

variable [DecidableEq κ]

def sweepThrough (cache : Cache κ ν) (interval start stop : Nat) : Cache κ ν :=
  if ticksBetween interval start stop then (cache.sweep (stop / interval * interval)).2 else cache

def sweepAfter (cache : Cache κ ν) (interval start stop : Nat) : Cache κ ν :=
  if ticksBetween interval start stop then (cache.sweep stop).2 else cache

end Cache

structure ClockedCache (κ ν : Type) where
  cache : Cache κ ν
  sweepInterval : Nat
  now : Nat

namespace ClockedCache

def ofConfig (config : Cache.Config) (hasRuntime : Bool) :
    Except Cache.Error (ClockedCache κ ν) := do
  config.check
  if hasRuntime then return ⟨.ofConfig config, config.sweepInterval, 0⟩
  else throw .noRuntime

variable [DecidableEq κ]

def sleep (clocked : ClockedCache κ ν) (duration : Nat) : ClockedCache κ ν :=
  let stop := clocked.now + sleepLength duration
  { clocked with
    cache := clocked.cache.sweepThrough clocked.sweepInterval clocked.now stop
    now := stop }

def jump (clocked : ClockedCache κ ν) (duration : Nat) : ClockedCache κ ν :=
  let stop := clocked.now + duration
  { clocked with
    cache := clocked.cache.sweepAfter clocked.sweepInterval clocked.now stop
    now := stop }

end ClockedCache

end NodeProtocol
