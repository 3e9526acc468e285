/-! # Counters of a specializer

Counters are 64-bit words.
-/

namespace InlineCache

/-- What is counted. -/
inductive Counter where
  /-- Shortcuts built. -/
  | siteBuilds
  /-- Requests answered by a shortcut that was there. -/
  | cacheReuses
  | allocatorBuilds
  | adapterBuilds
  /-- Requests refused. -/
  | ineligible
  /-- Calls served by a shortcut. -/
  | fastHits
  /-- Call sites that had to look for a target. -/
  | misses
  /-- Calls that took the general way. -/
  | fallbacks
deriving DecidableEq

/-- One number for each counter. -/
structure Counters where
  siteBuilds : UInt64 := 0
  cacheReuses : UInt64 := 0
  allocatorBuilds : UInt64 := 0
  adapterBuilds : UInt64 := 0
  ineligible : UInt64 := 0
  fastHits : UInt64 := 0
  misses : UInt64 := 0
  fallbacks : UInt64 := 0
deriving DecidableEq, Inhabited

namespace Counters

def record (n : Counters) : Counter → Counters
  | .siteBuilds => { n with siteBuilds := n.siteBuilds + 1 }
  | .cacheReuses => { n with cacheReuses := n.cacheReuses + 1 }
  | .allocatorBuilds => { n with allocatorBuilds := n.allocatorBuilds + 1 }
  | .adapterBuilds => { n with adapterBuilds := n.adapterBuilds + 1 }
  | .ineligible => { n with ineligible := n.ineligible + 1 }
  | .fastHits => { n with fastHits := n.fastHits + 1 }
  | .misses => { n with misses := n.misses + 1 }
  | .fallbacks => { n with fallbacks := n.fallbacks + 1 }

/-- The share of calls that a shortcut served, in percent; zero when there was no call. -/
def hitRate (n : Counters) : Float :=
  let total := n.fastHits + n.fallbacks
  if total = 0 then 0 else n.fastHits.toFloat / total.toFloat * 100

end Counters

end InlineCache
