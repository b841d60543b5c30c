import NodeProtocol.Cache.Config

namespace NodeProtocol.Client

structure Config where
  protocolVersion : UInt8 := 1
  requestTimeout : Nat := 30000
  pollInterval : Nat := 500
  cache : Cache.Config := {}
  deriving DecidableEq, Repr

inductive Setting
  | protocolVersion (version : UInt8)
  | requestTimeout (duration : Nat)
  | pollInterval (duration : Nat)
  | cache (config : Cache.Config)

namespace Config

/-- A longer timeout also stretches the life of in-flight entries. -/
def apply (config : Config) : Setting → Config
  | .protocolVersion version => { config with protocolVersion := version }
  | .requestTimeout duration =>
    { config with
      requestTimeout := duration
      cache := { config.cache with lifeSpan := max config.cache.lifeSpan duration } }
  | .pollInterval duration => { config with pollInterval := duration }
  | .cache cache => { config with cache }

def ofSettings (settings : List Setting) : Config :=
  settings.foldl apply {}

end Config

end NodeProtocol.Client
