import RuleExchange.Engine.Basic

/-! One call of the engine as a sequence of atomic steps: check and resolve, look into
the cache, enter the circuit, join the work under way, look again as a leader, do the
work, consult the validator, record the outcome, store it, publish it, and count the
call. Steps of different calls may be taken in any order; a step that has to wait for
the clock, for a worker or for a leader cannot be taken yet. A leader's time limit holds
for its work and for the validator, and what is ready by then wins over the limit. The
clock is taken to show the end of every cooldown: no report breaks off. -/

namespace RuleExchange.Engine

/-- The platforms of a request and its fingerprint. -/
structure Route where
  source : Platform
  target : Platform
  key : Fingerprint

def Route.pair (r : Route) : String := Circuits.pairOf r.source.id r.target.id

/-- The work on a request. A worker that breaks down ends it in a failure. -/
def Setup.draft (e : Setup) (rt : Route) (r : Request) : Except Failure Draft :=
  match e.breakdown rt.source rt.target r.content r.options.conversion with
  | some why => .error (.internal ("translation worker failed: " ++ why))
  | none => Pipeline.draft e.read rt.source rt.target r.content r.options

/-- What a leader holds while it works. -/
structure Lead where
  route : Route
  permit : Permit
  leader : Leader Fingerprint
  /-- When its time is up. -/
  deadline : Nat

inductive Phase where
  /-- Waits for a free worker. -/
  | queued
  | arrived
  | resolved (r : Route)
  | missed (r : Route)
  | entered (r : Route) (p : Permit)
  | following (ticket deadline : Nat)
  | leading (l : Lead)
  /-- A worker has the draft, or has broken down, once the clock reaches `ready`. -/
  | executing (l : Lead) (ready : Nat)
  /-- Calls the validator for the `made`th time once the clock reaches `wake`. -/
  | pausing (l : Lead) (d : Draft) (made wake : Nat)
  /-- Has the validator's answer once the clock reaches `wake`. -/
  | asking (l : Lead) (d : Draft) (made : Nat) (answer : Except String (List Warning)) (wake : Nat)
  | concluded (l : Lead) (o : Outcome)
  | recorded (l : Lead) (o : Outcome)
  /-- About to publish; a permit that is still held goes back unused. -/
  | publishing (l : Lead) (o : Outcome) (held : Option Permit)
  | answered (o : Outcome)
  | finished (o : Outcome)

structure Call where
  request : Request
  phase : Phase := .arrived
  /-- When the call has taken its first step. -/
  started : Option Nat := none

namespace Call

def timeoutFailure (o : Options) : Failure := .timeout (min o.timeoutMs Options.maxMillis)

def outcome? (c : Call) : Option Outcome :=
  match c.phase with
  | .finished o => some o
  | _ => none

def isExecuting (c : Call) : Bool :=
  match c.phase with
  | .executing _ _ => true
  | _ => false

/-- A call that waited for a worker gets one. -/
def arrive (c : Call) : Call := { c with phase := .arrived }

/-- The call after a step that it takes now. -/
def go (c : Call) (now : Nat) (p : Phase) : Call :=
  { c with phase := p, started := some (c.started.getD now) }

/-- How long the call has been going on. -/
def elapsedMs (c : Call) (now : Nat) : Nat := now - c.started.getD now

/-- The route of a request that is accepted. -/
def route (e : Setup) (r : Request) : Except Failure Route := do
  r.check
  let source ← e.resolve r.source
  let target ← e.resolve r.target
  return ⟨source, target, .ofRequest r⟩

/-- A finished draft with the validator's warnings behind its own. -/
def conclude (e : Setup) (l : Lead) (d : Draft) (warnings : List Warning) : Phase :=
  .concluded l (e.finish l.route.target { d with warnings := d.warnings ++ warnings })

/-- What follows the work; the validator comes after it. -/
def execute (e : Setup) (s : State) (r : Request) (l : Lead) : Phase :=
  match e.draft l.route r with
  | .error f => .concluded l (.error f)
  | .ok d =>
    match e.validator with
    | none => conclude e l d []
    | some _ => .pausing l d 0 s.now

/-- What follows the validator's answer. -/
def consider (e : Setup) (s : State) (r : Request) (l : Lead) (d : Draft) (made : Nat)
    (answer : Except String (List Warning)) : Phase :=
  let target := l.route.target
  match Remote.next target.id (Remote.attemptsFor r.options.retryAttempts) (e.retryPolicy target)
    made answer with
  | .done warnings => conclude e l d warnings
  | .retry pause => .pausing l d (made + 1) (s.now + pause)

/-- Waiting ends in a failure when the time of the call is up. -/
def await (s : State) (c : Call) (l : Lead) : Option (State × Call) :=
  if l.deadline ≤ s.now then
    some (s, c.go s.now (.concluded l (.error (timeoutFailure c.request.options))))
  else none

/-- The next step of a call, if it can be taken now. -/
def step (e : Setup) (s : State) (c : Call) : Option (State × Call) :=
  let r := c.request
  let go := c.go s.now
  match c.phase with
  | .queued => none
  | .arrived =>
    match route e r with
    | .error f => some (s, go (.answered (.error f)))
    | .ok rt => some (s, go (.resolved rt))
  | .resolved rt =>
    match s.lookUp rt.key with
    | (s, some x) => some (s, go (.answered (.ok x)))
    | (s, none) => some (s, go (.missed rt))
  | .missed rt =>
    match s.enter rt.pair with
    | (s, .error f) => some (s, go (.answered (.error f)))
    | (s, .ok p) => some (s, go (.entered rt p))
  | .entered rt p =>
    let deadline := s.now + r.options.timeoutMs
    match s.flights.join rt.key with
    | (_, .follower ticket) => some (s.release p, go (.following ticket deadline))
    | (flights, .leader l) =>
      some ({ s with flights }, go (.leading ⟨rt, p, l, deadline⟩))
  | .following ticket deadline =>
    match s.flights.result? ticket with
    | some (some o) => some (s.share, go (.answered o))
    | some none => some (s, go (.answered (.error (timeoutFailure r.options))))
    | none =>
      if deadline ≤ s.now then some (s, go (.answered (.error (timeoutFailure r.options))))
      else none
  | .leading l =>
    match s.lookUp l.route.key with
    | (s, some x) => some (s, go (.publishing l (.ok x) (some l.permit)))
    | (s, none) => some (s, go (.executing l (s.now + e.workMs l.leader.ticket)))
  | .executing l ready =>
    if ready ≤ s.now then some (s, go (execute e s r l)) else await s c l
  | .pausing l d made wake =>
    match e.validator with
    | none => some (s, go (conclude e l d []))
    | some replies =>
      if wake ≤ s.now then
        let reply := replies s.consulted.length
        some ({ s with consulted := s.consulted ++ [(l.route.target.id, s.now)] },
          go (.asking l d made reply.answer (s.now + reply.delayMs)))
      else await s c l
  | .asking l d made answer wake =>
    if wake ≤ s.now then some (s, go (consider e s r l d made answer)) else await s c l
  | .concluded l o => some (s.record l.permit o.isOk, go (.recorded l o))
  | .recorded l o => some (s.store l.route.key o, go (.publishing l o none))
  | .publishing l o held =>
    let s := s.publish l.leader o
    some (match held with
      | some p => s.release p
      | none => s, go (.answered o))
  | .answered o => some (e.account r (c.elapsedMs s.now) o s, go (.finished o))
  | .finished _ => none

/-- The times at which a waiting call has to be looked at again. -/
def alarms (c : Call) : List Nat :=
  match c.phase with
  | .following _ deadline => [deadline]
  | .executing l ready => [l.deadline, ready]
  | .pausing l _ _ wake => [l.deadline, wake]
  | .asking l _ _ _ wake => [l.deadline, wake]
  | _ => []

end Call

/-- Calls over one state. -/
structure World where
  state : State
  calls : List Call := []

namespace World

/-- Takes the next step of one call; nothing happens when it cannot be taken. -/
def move (e : Setup) (i : Nat) (w : World) : World :=
  match w.calls[i]? with
  | none => w
  | some c =>
    match c.step e w.state with
    | none => w
    | some (s, c) => ⟨s, w.calls.set i c⟩

/-- Lets time pass. -/
def wait (ms : Nat) (w : World) : World :=
  { w with state := { w.state with now := w.state.now + ms } }

/-- What can happen to a world. -/
inductive Event where
  | move (call : Nat)
  | wait (ms : Nat)
  deriving DecidableEq, Repr

def apply (e : Setup) (w : World) : Event → World
  | .move i => w.move e i
  | .wait ms => w.wait ms

/-- A world after a history of events, whatever their order. -/
def run (e : Setup) (w : World) (history : List Event) : World := history.foldl (apply e) w

end World

end RuleExchange.Engine
