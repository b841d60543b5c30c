namespace NodeProtocol.Cache

structure Config where
  capacity : Nat := 1024
  lifeSpan : Nat := 30000
  sweepInterval : Nat := 1000
  deriving DecidableEq, Repr

inductive ConfigFault
  | zeroCapacity
  | zeroSweepInterval
  deriving DecidableEq, Repr

inductive Error
  | noRuntime
  | closed
  | invalidConfig (fault : ConfigFault)
  deriving DecidableEq, Repr

def ConfigFault.message : ConfigFault → String
  | zeroCapacity => "capacity must be at least 1"
  | zeroSweepInterval => "sweep interval must be non-zero"

def Error.message : Error → String
  | noRuntime => "No tokio runtime available for the sweep task"
  | closed => "Cache has been cleared"
  | invalidConfig fault => "Invalid cache configuration: " ++ fault.message

def Config.check (config : Config) : Except Error Unit :=
  if config.capacity = 0 then .error (.invalidConfig .zeroCapacity)
  else if config.sweepInterval = 0 then .error (.invalidConfig .zeroSweepInterval)
  else .ok ()

end NodeProtocol.Cache
