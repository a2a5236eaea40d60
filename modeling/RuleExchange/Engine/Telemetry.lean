import RuleExchange.Json.Writer

/-! Samples for monitoring: counters, gauges and distributions, each with a name and
labels. A summary adds up the counters, keeps the last value of each gauge and all
values of each distribution. -/

namespace RuleExchange

inductive Reading where
  | count
  | gauge (x : Float)
  | observe (x : Float)

structure Sample where
  name : String
  /-- Ordered by label. -/
  labels : List (String × String) := []
  reading : Reading

/-- All samples of one name and one set of labels. -/
structure Series where
  name : String
  labels : List (String × String)
  count : Nat := 0
  gauge : Option Float := none
  observed : List Float := []

namespace Telemetry

def requestsTotal : String := "udfbridge_translations_total"

def durationSeconds : String := "udfbridge_translation_duration_seconds"

def errorsTotal : String := "udfbridge_translation_errors_total"

def confidenceScores : String := "udfbridge_translation_confidence"

def cacheHitsTotal : String := "udfbridge_cache_hits_total"

def sharedTotal : String := "udfbridge_dedup_shared_total"

def circuitState : String := "udfbridge_circuit_state"

def batchSize : String := "udfbridge_batch_size"

def uptimeSeconds : String := "udfbridge_daemon_uptime_seconds"

def buildInfo : String := "udfbridge_daemon_build_info"

def platformsRegistered : String := "udfbridge_daemon_translators_registered"

/-- Milliseconds as seconds; what is less than a second is added at last. -/
def seconds (ms : Nat) : Float :=
  Float.ofNat (ms / 1000) + Float.ofNat (1000000 * (ms % 1000)) / 1000000000.0

/-- Upper bounds of the classes of durations, in seconds. -/
def durationBuckets : List Float :=
  [0.0005, 0.001, 0.0025, 0.005, 0.01, 0.025, 0.05, 0.1, 0.5, 1.0]

def names : List String :=
  [requestsTotal, durationSeconds, errorsTotal, confidenceScores, cacheHitsTotal, sharedTotal,
    circuitState, batchSize, uptimeSeconds, buildInfo, platformsRegistered]

/-- What a name stands for. -/
structure Description where
  kind : String
  name : String
  unit : Option String
  text : String
  deriving DecidableEq, Repr

def descriptions : List Description := [
  ⟨"counter", requestsTotal, some "count", "Translation requests by platform pair and result"⟩,
  ⟨"histogram", durationSeconds, some "seconds", "End-to-end translation latency"⟩,
  ⟨"counter", errorsTotal, some "count", "Translation failures by error type"⟩,
  ⟨"histogram", confidenceScores, none, "Confidence score of successful translations"⟩,
  ⟨"counter", cacheHitsTotal, some "count", "Translations served from the result cache"⟩,
  ⟨"counter", sharedTotal, some "count",
    "Translations that awaited an identical in-flight request"⟩,
  ⟨"gauge", circuitState, none,
    "Circuit breaker state per platform pair (0 closed, 1 half-open, 2 open)"⟩,
  ⟨"histogram", batchSize, some "count", "Requests per batch"⟩,
  ⟨"gauge", uptimeSeconds, some "seconds", "Seconds since the daemon started"⟩,
  ⟨"gauge", buildInfo, none, "Build information (always 1)"⟩,
  ⟨"gauge", platformsRegistered, some "count", "Number of registered platform translators"⟩]

def Series.add (s : Series) : Reading → Series
  | .count => { s with count := s.count + 1 }
  | .gauge x => { s with gauge := some x }
  | .observe x => { s with observed := s.observed ++ [x] }

/-- The order of labels: by the first label that differs. -/
def labelsBefore : List (String × String) → List (String × String) → Bool
  | [], [] => false
  | [], _ :: _ => true
  | _ :: _, [] => false
  | (k, v) :: xs, (l, w) :: ys =>
    if k ≠ l then k < l else if v ≠ w then v < w else labelsBefore xs ys

def before (a b : Series) : Bool :=
  if a.name ≠ b.name then a.name < b.name else labelsBefore a.labels b.labels

/-- Adds a sample to its series, or starts one at its place in the order. -/
def insert (x : Sample) : List Series → List Series
  | [] => [Series.add { name := x.name, labels := x.labels } x.reading]
  | s :: rest =>
    let fresh : Series := { name := x.name, labels := x.labels }
    if s.name = x.name ∧ s.labels = x.labels then Series.add s x.reading :: rest
    else if before fresh s then Series.add fresh x.reading :: s :: rest
    else s :: insert x rest

/-- All series, ordered by name and labels. -/
def summary (samples : List Sample) : List Series :=
  samples.foldl (fun acc x => insert x acc) []

def insertFloat (x : Float) : List Float → List Float
  | [] => [x]
  | y :: ys => if x < y then x :: y :: ys else y :: insertFloat x ys

def sortFloats (xs : List Float) : List Float := xs.foldl (fun acc x => insertFloat x acc) []

end Telemetry

end RuleExchange
