namespace NodeProtocol

def longestSleep : Nat := 30 * 365 * 24 * 60 * 60 * 1000

def sleepLength (duration : Nat) : Nat :=
  min duration longestSleep

def ticksBetween (interval start stop : Nat) : Bool :=
  start / interval < stop / interval

end NodeProtocol
