import RuleExchange.Engine.Call

/-! A schedule for calls on one thread. Calls that can go on wait in a line; one that
starts its work goes to the end of the line, so that calls that are waiting to begin come
first. When nobody can go on, the clock jumps to the earliest alarm. Alarms of the same
time ring in the order in which they were set. A limited number of workers may be busy
at once. -/

namespace RuleExchange.Engine

structure Alarm where
  time : Nat
  call : Nat
  deriving DecidableEq, Repr

structure Schedule where
  world : World
  /-- Calls that can go on, first come first served. -/
  ready : List Nat := []
  alarms : List Alarm := []
  /-- Calls without a worker. -/
  waiting : List Nat := []

namespace Schedule

def call? (s : Schedule) (i : Nat) : Option Call := s.world.calls[i]?

def now (s : Schedule) : Nat := s.world.state.now

/-- Puts calls at the end of the line, each once. -/
def wake (s : Schedule) (is : List Nat) : Schedule :=
  { s with ready := s.ready ++ is.filter fun i => !s.ready.contains i }

/-- The alarms of one call as its phase wants them; those already set keep their places. -/
def setAlarms (s : Schedule) (i : Nat) (times : List Nat) : Schedule :=
  let kept := s.alarms.filter fun a => a.call ≠ i || times.contains a.time
  let old := (kept.filter (·.call = i)).map (·.time)
  let fresh := (times.eraseDups.filter fun t => !old.contains t).map fun t => ⟨t, i⟩
  { s with alarms := kept ++ fresh }

def followersOf (s : Schedule) (ticket : Nat) : List Nat :=
  (s.world.calls.zipIdx.filter fun (c, _) =>
    match c.phase with
    | .following t _ => t = ticket
    | _ => false).map (·.2)

/-- The ticket that a call is about to land, if its next step publishes. -/
def landing (c : Call) : Option Nat :=
  match c.phase with
  | .publishing l _ _ => some l.leader.ticket
  | _ => none

def startCall (s : Schedule) (i : Nat) : Schedule :=
  match s.call? i with
  | some c => { s with world := { s.world with calls := s.world.calls.set i c.arrive } }
  | none => s

/-- Gives a worker that has become free to the next call that waits for one. -/
def freeWorker (s : Schedule) : Schedule :=
  match s.waiting with
  | [] => s
  | i :: rest => ({ s with waiting := rest }.startCall i).wake [i]

/-- Lets the first call of the line take one step. -/
def resume (e : Setup) (i : Nat) (rest : List Nat) (s : Schedule) : Schedule :=
  match s.call? i with
  | none => { s with ready := rest }
  | some c =>
    match c.step e s.world.state with
    | none =>
      let s := ({ s with ready := rest }).setAlarms i c.alarms
      if c.outcome?.isSome then s.freeWorker else s
    | some (_, after) =>
      let s := { s with world := s.world.move e i }
      let s := match landing c with
        | some ticket => s.wake (s.followersOf ticket)
        | none => s
      if after.isExecuting then
        ({ s with ready := s.ready.drop 1 ++ [i] }).setAlarms i after.alarms
      else s

def earliest : List Alarm → Option Nat
  | [] => none
  | a :: as =>
    match earliest as with
    | none => some a.time
    | some t => some (min a.time t)

/-- The clock jumps to a time, and the calls whose alarms ring get in line. -/
def ring (t : Nat) (s : Schedule) : Schedule :=
  let ringing := s.alarms.filter (·.time ≤ t)
  let s := { s with
    world := s.world.wait (t - s.now)
    alarms := s.alarms.filter (t < ·.time) }
  s.wake (ringing.map (·.call)).eraseDups

/-- One turn after the other until nobody waits for anything, at most `fuel` turns. -/
def turns (e : Setup) : Nat → Schedule → Schedule
  | 0, s => s
  | fuel + 1, s =>
    match s.ready with
    | i :: rest => turns e fuel (s.resume e i rest)
    | [] =>
      match earliest s.alarms with
      | some t => turns e fuel (s.ring t)
      | none => s

/-- Turns that are enough for one call. -/
def turnsFor (r : Request) : Nat := 64 + 16 * Remote.attemptsFor r.options.retryAttempts

/-- Runs requests with so many workers; they begin in the order of the list. -/
def run (e : Setup) (s : State) (workers : Nat) (rs : List Request) : World :=
  let calls := rs.zipIdx.map fun (r, i) =>
    ({ request := r, phase := if i < workers then .arrived else .queued } : Call)
  let line := List.range rs.length
  let start : Schedule :=
    { world := ⟨s, calls⟩, ready := line.take workers, waiting := line.drop workers }
  let fuel := (rs.map turnsFor).foldr (· + ·) 0 * (rs.length + 1)
  (turns e fuel start).world

end Schedule

def World.outcomes (w : World) : List Outcome :=
  w.calls.map fun c => c.outcome?.getD (.error (.internal "the call did not finish"))

end RuleExchange.Engine
