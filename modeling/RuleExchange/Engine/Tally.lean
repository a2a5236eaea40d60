import RuleExchange.Json.Writer

/-! Counts of finished calls, cache hits and shared results. Counts are words of 64
bits and wrap around. -/

namespace RuleExchange

structure Tally where
  total : Nat := 0
  success : Nat := 0
  failure : Nat := 0
  latencyMicros : Nat := 0
  cacheHits : Nat := 0
  shared : Nat := 0
  deriving DecidableEq, Repr

namespace Tally

def wordSize : Nat := Nat.pow 2 64

def add (a b : Nat) : Nat := (a + b) % wordSize

def record (t : Tally) (success : Bool) (micros : Nat) : Tally :=
  { t with
    total := add t.total 1
    success := if success then add t.success 1 else t.success
    failure := if success then t.failure else add t.failure 1
    latencyMicros := add t.latencyMicros (min micros (wordSize - 1)) }

def hit (t : Tally) : Tally := { t with cacheHits := add t.cacheHits 1 }

def share (t : Tally) : Tally := { t with shared := add t.shared 1 }

/-- The share of calls that went well; nothing went well when there was no call. -/
def successRate (t : Tally) : Float :=
  if t.total = 0 then 0.0 else Float.ofNat t.success / Float.ofNat t.total

def meanLatencyMs (t : Tally) : Float :=
  if t.total = 0 then 0.0 else Float.ofNat t.latencyMicros / Float.ofNat t.total / 1000.0

def counts (t : Tally) : List (String × Json.Value) :=
  [("total_operations", .nat t.total), ("success_count", .nat t.success),
    ("failure_count", .nat t.failure), ("success_rate", .float t.successRate),
    ("cache_hits", .nat t.cacheHits), ("dedup_shared", .nat t.shared)]

def toJson (t : Tally) : Json.Value :=
  .obj (t.counts ++ [("avg_latency_ms", .float t.meanLatencyMs)])

end Tally

end RuleExchange
