import RuleExchange.Engine.Cache
import RuleExchange.Engine.Circuit
import RuleExchange.Engine.Flights
import RuleExchange.Engine.Pipeline
import RuleExchange.Engine.Remote
import RuleExchange.Engine.Tally
import RuleExchange.Engine.Telemetry
import RuleExchange.Registry
import RuleExchange.Settings.Check

/-! The engine. Its setup stays the same for its whole life: settings, platforms, how
rules are read, a validator outside the engine, if there is one, how long work takes and
over which rules a worker breaks down. Its state is what calls share: finished results, work
under way, circuits, counts, samples, the calls made to the validator, and the clock. -/

namespace RuleExchange.Engine

structure Setup where
  settings : Settings := {}
  registry : Registry := .standard
  read : RuleReader := Platform.toUniversal
  /-- What the validator does at each of its calls, counted over the life of the engine. -/
  validator : Option (Nat → Reply) := none
  /-- How long a worker is busy with the work of a leader, by the leader's ticket. -/
  workMs : Nat → Nat := fun _ => 0
  /-- Why a worker breaks down over a rule of the source for the target, if it does. -/
  breakdown : Platform → Platform → String → Conversion → Option String := fun _ _ _ _ => none

abbrev Outcomes := Flights Fingerprint Outcome

structure State where
  cache : Cache Fingerprint Exchange
  flights : Outcomes := {}
  circuits : Circuits := {}
  tally : Tally := {}
  samples : List Sample := []
  /-- The calls made to the validator: the platform and the time. -/
  consulted : List (String × Nat) := []
  /-- Milliseconds since the engine was built. -/
  now : Nat := 0

def State.ofSettings (s : Settings) : State :=
  { cache := .ofCapacity s.engine.cacheCapacity, circuits := { settings := s.engine.breaker } }

namespace State

def emit (s : State) (x : Sample) : State := { s with samples := s.samples ++ [x] }

/-- Puts new circuits in place; a circuit of the pair that has changed its state is shown. -/
def setCircuits (s : State) (pair : String) (cs : Circuits) : State :=
  let shown := { s with circuits := cs }
  if s.circuits.state pair = cs.state pair then shown
  else shown.emit ⟨Telemetry.circuitState, [("pair", pair)], .gauge (cs.state pair).gauge⟩

/-- A look into the cache; a hit is counted. -/
def lookUp (s : State) (k : Fingerprint) : State × Option Exchange :=
  match s.cache.get? k with
  | some r =>
    ({ s with tally := s.tally.hit }.emit ⟨Telemetry.cacheHitsTotal, [], .count⟩, some r)
  | none => (s, none)

def enter (s : State) (pair : String) : State × Except Failure Permit :=
  let (cs, r) := s.circuits.enter s.now pair
  (s.setCircuits pair cs, r)

def record (s : State) (p : Permit) (success : Bool) : State :=
  s.setCircuits p.pair (s.circuits.record s.now p success)

def release (s : State) (p : Permit) : State := { s with circuits := s.circuits.release p }

def store (s : State) (k : Fingerprint) (o : Outcome) : State :=
  match o with
  | .ok r => { s with cache := s.cache.insert k r }
  | .error _ => s

def publish (s : State) (l : Leader Fingerprint) (o : Outcome) : State :=
  { s with flights := s.flights.publish l o }

def share (s : State) : State :=
  { s with tally := s.tally.share }.emit ⟨Telemetry.sharedTotal, [], .count⟩

end State

namespace Setup

def resolve (e : Setup) (platform : String) : Except Failure Platform :=
  match e.registry.find? platform with
  | some p => .ok p
  | none => .error (.unsupportedPlatform platform)

/-- The name of a platform in samples. -/
def label (e : Setup) (platform : String) : String :=
  match e.registry.find? platform with
  | some p => p.id
  | none => "unknown"

def retryPolicy (e : Setup) (target : Platform) : Settings.Retry :=
  match e.settings.platform? target.id with
  | some p => p.retry
  | none => {}

/-- The result of a draft under the floor of its target. -/
def finish (e : Setup) (target : Platform) (d : Draft) : Outcome :=
  Pipeline.finish (e.settings.accuracyFloorFor target.id) target d

def options (e : Setup) : Options := e.settings.engine.options

/-- Counts a finished call, which has taken so long, and shows it. -/
def account (e : Setup) (r : Request) (elapsedMs : Nat) (o : Outcome) (s : State) : State :=
  let source := e.label r.source
  let target := e.label r.target
  let result := if o.isOk then "success" else "failure"
  let both := [("source", source), ("target", target)]
  let s := { s with tally := s.tally.record o.isOk (1000 * elapsedMs) }
  let s := s.emit ⟨Telemetry.requestsTotal, ("result", result) :: both, .count⟩
  let s := s.emit ⟨Telemetry.durationSeconds, both, .observe (Telemetry.seconds elapsedMs)⟩
  match o with
  | .ok x => s.emit ⟨Telemetry.confidenceScores, [("target", target)], .observe x.confidence⟩
  | .error f => s.emit ⟨Telemetry.errorsTotal, ("error_type", f.kind) :: both, .count⟩

end Setup

end RuleExchange.Engine
