import RuleExchange.Failure
import RuleExchange.Settings.Basic

/-! Circuit breakers, one for each pair of platforms. A closed circuit lets every call
in and watches a sliding window of outcomes; when the window holds enough of them and
too large a share has failed, it opens and refuses calls until it has cooled down. It
is then half open: a few trials are let in, the first success closes it and a failure
opens it again. Times are milliseconds. -/

namespace RuleExchange

inductive CircuitState where
  | closed
  | halfOpen
  | opened
  deriving DecidableEq, Repr

namespace CircuitState

def name : CircuitState → String
  | closed => "closed"
  | halfOpen => "half_open"
  | opened => "open"

def gauge : CircuitState → Float
  | closed => 0.0
  | halfOpen => 1.0
  | opened => 2.0

end CircuitState

structure Circuit where
  state : CircuitState := .closed
  /-- When a call was recorded and whether it went well, the oldest first. -/
  outcomes : List (Nat × Bool) := []
  openUntil : Option Nat := none
  trialsInFlight : Nat := 0
  deriving DecidableEq, Repr

/-- Leave to make one call. -/
structure Permit where
  pair : String
  /-- Whether the call is a trial of a half open circuit. -/
  trial : Bool
  deriving DecidableEq, Repr

namespace Circuit

def windowMs (s : Settings.Breaker) : Nat := 1000 * s.windowSecs

def cooldownMs (s : Settings.Breaker) : Nat := 1000 * s.cooldownSecs

/-- The waiting time told to callers that find every trial taken. -/
def trialRetryMs : Nat := 1000

def maxMillis : Nat := Nat.pow 2 64 - 1

/-- The last millisecond that the clock can show: its seconds are signed words of 64 bits. -/
def lastInstant : Nat := 1000 * Nat.pow 2 63 - 1

def failures (outcomes : List (Nat × Bool)) : Nat := (outcomes.filter fun o => !o.2).length

/-- The outcomes that are not older than the window, when they are ordered by time. -/
def recent (window now : Nat) (outcomes : List (Nat × Bool)) : List (Nat × Bool) :=
  outcomes.dropWhile fun o => window < now - o.1

/-- A circuit that has cooled down becomes half open when a call comes. -/
def thaw (now : Nat) (c : Circuit) : Circuit :=
  match c.state, c.openUntil with
  | .opened, some limit =>
    if now < limit then c
    else { c with state := .halfOpen, openUntil := none, trialsInFlight := 0 }
  | .opened, none => { c with state := .halfOpen, trialsInFlight := 0 }
  | _, _ => c

/-- Lets a call in, or says after how many milliseconds to try again. -/
def enter (s : Settings.Breaker) (now : Nat) (c : Circuit) : Circuit × Except Nat Bool :=
  let c := c.thaw now
  match c.state with
  | .opened => (c, .error (max 1 (min maxMillis (c.openUntil.getD now - now))))
  | .halfOpen =>
    if s.halfOpenMax ≤ c.trialsInFlight then (c, .error trialRetryMs)
    else ({ c with trialsInFlight := c.trialsInFlight + 1 }, .ok true)
  | .closed => (c, .ok false)

/-- Opens a circuit until it has cooled down. When the clock cannot show the end of that time,
the report breaks off after the state is written: the circuit is open without a deadline and
keeps its outcomes. -/
def trip (s : Settings.Breaker) (now : Nat) (c : Circuit) : Circuit :=
  if now + cooldownMs s ≤ lastInstant then
    { c with state := .opened, openUntil := some (now + cooldownMs s), outcomes := [] }
  else { c with state := .opened }

/-- Enough outcomes, and too large a share of failures among them. -/
def shouldTrip (s : Settings.Breaker) (outcomes : List (Nat × Bool)) : Bool :=
  s.minRequests ≤ outcomes.length &&
    s.failureRatio ≤ Float.ofNat (failures outcomes) / Float.ofNat outcomes.length

def freeTrial (c : Circuit) : Circuit := { c with trialsInFlight := c.trialsInFlight - 1 }

def recordTrial (s : Settings.Breaker) (now : Nat) (success : Bool) (c : Circuit) : Circuit :=
  let c := c.freeTrial
  if c.state ≠ .halfOpen then c
  else if success then { c with state := .closed, outcomes := [] }
  else c.trip s now

def recordCall (s : Settings.Breaker) (now : Nat) (success : Bool) (c : Circuit) : Circuit :=
  if c.state ≠ .closed then c
  else
    let outcomes := recent (windowMs s) now (c.outcomes ++ [(now, success)])
    if shouldTrip s outcomes then { c with outcomes }.trip s now else { c with outcomes }

def record (s : Settings.Breaker) (now : Nat) (trial success : Bool) (c : Circuit) : Circuit :=
  if trial then c.recordTrial s now success else c.recordCall s now success

end Circuit

/-- A view of one circuit. -/
structure CircuitView where
  pair : String
  state : CircuitState
  requests : Nat
  failures : Nat
  retryAfterMs : Option Nat
  deriving DecidableEq, Repr

def CircuitView.toJson (v : CircuitView) : Json.Value :=
  .obj ([("pair", .str v.pair), ("state", .str v.state.name), ("window_requests", .nat v.requests),
    ("window_failures", .nat v.failures)] ++
    (v.retryAfterMs.map fun n => ("retry_after_ms", Json.Value.nat n)).toList)

/-- Circuits by pair, ordered by pair. -/
structure Circuits where
  settings : Settings.Breaker := {}
  table : List (String × Circuit) := []

namespace Circuits

/-- The name of the pair of a source and a target. -/
def pairOf (source target : String) : String := source ++ "->" ++ target

def get? (cs : Circuits) (pair : String) : Option Circuit := Json.lookup pair cs.table

def put (cs : Circuits) (pair : String) (c : Circuit) : Circuits :=
  { cs with table := Json.insertMember pair c cs.table }

/-- A pair without a circuit is as good as closed. -/
def state (cs : Circuits) (pair : String) : CircuitState :=
  match cs.get? pair with
  | some c => c.state
  | none => .closed

def enter (cs : Circuits) (now : Nat) (pair : String) : Circuits × Except Failure Permit :=
  let (c, r) := ((cs.get? pair).getD {}).enter cs.settings now
  (cs.put pair c,
    match r with
    | .ok trial => .ok ⟨pair, trial⟩
    | .error ms => .error (.circuitOpen pair ms))

def modify (cs : Circuits) (pair : String) (f : Circuit → Circuit) : Circuits :=
  match cs.get? pair with
  | some c => cs.put pair (f c)
  | none => cs

/-- Reports the outcome of the call that a permit was given for. -/
def record (cs : Circuits) (now : Nat) (p : Permit) (success : Bool) : Circuits :=
  cs.modify p.pair fun c => c.record cs.settings now p.trial success

/-- Gives a permit back unused; nothing is counted. -/
def release (cs : Circuits) (p : Permit) : Circuits :=
  if p.trial then cs.modify p.pair Circuit.freeTrial else cs

def view (cs : Circuits) (now : Nat) (pair : String) (c : Circuit) : CircuitView :=
  let live := c.outcomes.filter fun o => now - o.1 ≤ Circuit.windowMs cs.settings
  { pair, state := c.state, requests := live.length, failures := Circuit.failures live
    retryAfterMs := c.openUntil.map fun limit => min Circuit.maxMillis (limit - now) }

def views (cs : Circuits) (now : Nat) : List CircuitView :=
  cs.table.map fun (pair, c) => cs.view now pair c

def openPairs (cs : Circuits) : List String :=
  (cs.table.filter fun (_, c) => c.state = .opened).map (·.1)

end Circuits

end RuleExchange
