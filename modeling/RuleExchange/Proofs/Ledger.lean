import RuleExchange.Proofs.WorldProgress

/-! Accounting for calls. The steps by which a call is decided, recorded with its circuit and
closed leave marks in a log, and the tally is what the marks of the log add up to. A mark of one
kind is matched by a mark of another kind or by a call that stands between the two, so that the
log is balanced whenever no call is in progress. The story of every finished call is one of
four: it was rejected, it found a stored result, it followed, or it did its work and reported
the outcome once. -/

namespace RuleExchange

namespace Engine

/-! ### Marks -/

inductive Mark where
  /-- Turned away before any work. -/
  | rejected
  /-- Answered from the cache. -/
  | hit
  /-- Answered by a leader. -/
  | followed
  /-- The work was done. -/
  | executed
  /-- The outcome was recorded with the circuit. -/
  | reported
  | closed (success : Bool)
  deriving DecidableEq, Repr

namespace Mark

def isClosed : Mark → Bool
  | .closed _ => true
  | _ => false

end Mark

/-- The mark that a step leaves. -/
def Phase.mark? : Phase → Phase → Option Mark
  | .arrived, .answered _ | .missed _, .answered _ => some .rejected
  | .resolved _, .answered _ | .leading _, .publishing _ _ _ => some .hit
  | .following _ _, .answered _ => some .followed
  | .executing _ _, .concluded _ _ | .executing _ _, .pausing _ _ _ _ => some .executed
  | .concluded _ _, .recorded _ _ => some .reported
  | .answered _, .finished o => some (.closed o.isOk)
  | _, _ => none

end Engine

/-! ### The tally of marks -/

namespace Tally

open Engine (Mark)

/-- The tally without the time that calls have taken. -/
def untimed (t : Tally) : Tally := { t with latencyMicros := 0 }

theorem untimed_record (t : Tally) (success : Bool) (micros : Nat) :
    (t.record success micros).untimed = t.untimed.record success 0 := rfl

/-- The tally after a step with this mark, by a clock that stands still. -/
def mark (t : Tally) : Mark → Tally
  | .hit => t.hit
  | .followed => t.share
  | .closed success => t.record success 0
  | .rejected | .executed | .reported => t

/-- The tally holds the numbers of the marks as words. -/
structure Counts (marks : List Mark) (t : Tally) : Prop where
  total : t.total = marks.countP Mark.isClosed % wordSize
  success : t.success = marks.count (.closed true) % wordSize
  failure : t.failure = marks.count (.closed false) % wordSize
  cacheHits : t.cacheHits = marks.count .hit % wordSize
  shared : t.shared = marks.count .followed % wordSize

theorem add_one_mod (n : Nat) : add (n % wordSize) 1 = (n + 1) % wordSize :=
  Nat.mod_add_mod n wordSize 1

theorem Counts.mark {marks : List Mark} {t : Tally} (h : Counts marks t) (m : Mark) :
    Counts (marks ++ [m]) (t.mark m) := by
  obtain ⟨htotal, hsuccess, hfailure, hhits, hshared⟩ := h
  cases m with
  | rejected | executed | reported | hit | followed =>
    constructor <;> simp [Tally.mark, hit, share, Mark.isClosed, *, add_one_mod]
  | closed success =>
    cases success <;>
      constructor <;> simp [Tally.mark, record, Mark.isClosed, *, add_one_mod]

end Tally

namespace Engine

/-! ### What a step writes -/

@[simp] theorem State.tally_setCircuits (s : State) (pair : String) (cs : Circuits) :
    (s.setCircuits pair cs).tally = s.tally := by
  unfold setCircuits
  split <;> rfl

@[simp] theorem State.circuits_setCircuits (s : State) (pair : String) (cs : Circuits) :
    (s.setCircuits pair cs).circuits = cs := by
  unfold setCircuits
  split <;> rfl

@[simp] theorem State.tally_store (s : State) (k : Fingerprint) (o : Outcome) :
    (s.store k o).tally = s.tally := by
  cases o <;> rfl

@[simp] theorem State.circuits_store (s : State) (k : Fingerprint) (o : Outcome) :
    (s.store k o).circuits = s.circuits := by
  cases o <;> rfl

theorem Setup.tally_account (e : Setup) (r : Request) (elapsedMs : Nat) (o : Outcome)
    (s : State) :
    (e.account r elapsedMs o s).tally = s.tally.record o.isOk (1000 * elapsedMs) := by
  cases o <;> rfl

theorem Setup.circuits_account (e : Setup) (r : Request) (elapsedMs : Nat) (o : Outcome)
    (s : State) : (e.account r elapsedMs o s).circuits = s.circuits := by
  cases o <;> rfl

namespace Call

variable {e : Setup} {s s' : State} {r : Request} {c : Call} {p p' : Phase}
  {began began' : Option Nat}

theorem step_resolved {rt : Route}
    (hs : step e s ⟨r, .resolved rt, began⟩ = some (s', ⟨r, p', began'⟩)) :
    s' = (s.lookUp rt.key).1 := by
  simp only [step] at hs
  split at hs <;> cases hs <;> simp [*]

theorem step_leading {l : Lead}
    (hs : step e s ⟨r, .leading l, began⟩ = some (s', ⟨r, p', began'⟩)) :
    s' = (s.lookUp l.route.key).1 := by
  simp only [step] at hs
  split at hs <;> cases hs <;> simp [*]

theorem step_missed {rt : Route}
    (hs : step e s ⟨r, .missed rt, began⟩ = some (s', ⟨r, p', began'⟩)) :
    s' = s.setCircuits rt.pair (s.circuits.enter s.now rt.pair).1 := by
  have henter : (s.enter rt.pair).1 = s.setCircuits rt.pair (s.circuits.enter s.now rt.pair).1 :=
    rfl
  simp only [step] at hs
  split at hs <;> cases hs <;> simp [← henter, *]

theorem step_follow {rt : Route} {permit : Permit} {t d : Nat}
    (hs : step e s ⟨r, .entered rt permit, began⟩ = some (s', ⟨r, .following t d, began'⟩)) :
    s' = s.release permit := by
  simp only [step] at hs
  split at hs <;> cases hs
  rfl

theorem step_ask {l : Lead} {d : Draft} {made wake wake' : Nat}
    {answer : Except String (List Warning)}
    (hs : step e s ⟨r, .pausing l d made wake, began⟩ =
      some (s', ⟨r, .asking l d made answer wake', began'⟩)) :
    s' = { s with consulted := s.consulted ++ [(l.route.target.id, s.now)] } := by
  simp only [step] at hs
  split at hs
  · simp [go, conclude] at hs
  · split at hs
    · cases hs
      rfl
    · simp [await, go] at hs

/-- A step counts what its mark says and how long a call has taken, and nothing else. -/
theorem Transition.tally (ht : Transition e s r p s' p')
    (hs : step e s ⟨r, p, began⟩ = some (s', ⟨r, p', began'⟩))
    (hx : expires s ⟨r, p, began⟩ = false)
    (hlost : ∀ t d, p = .following t d → s.flights.result? t ≠ some none) :
    s'.tally.untimed = (p.mark? p').toList.foldl Tally.mark s.tally.untimed := by
  cases ht with
  | hit hget =>
    rw [step_resolved hs, State.lookUp, hget]
    rfl
  | find hget =>
    rw [step_leading hs, State.lookUp, hget]
    rfl
  | refuse | enter =>
    rw [step_missed hs, State.tally_setCircuits]
    rfl
  | follow =>
    rw [step_follow hs]
    rfl
  | receive ho =>
    simp only [step, ho] at hs
    cases hs
    rfl
  | lose ho => exact absurd ho (hlost _ _ rfl)
  | leave ho hd => simp [expires, ho, hd] at hx
  | ask =>
    rw [step_ask hs]
    rfl
  | record =>
    cases hs
    rw [State.record, State.tally_setCircuits]
    rfl
  | store =>
    rw [State.tally_store]
    rfl
  | @publish l o held =>
    cases hs
    cases held <;> rfl
  | account =>
    cases hs
    rw [e.tally_account]
    exact Tally.untimed_record _ _ _
  | _ => rfl

/-- What a step does to the circuits: it records an outcome exactly when it reports one, and
otherwise lets a call in, takes a permit back or leaves them alone. -/
inductive Touches (s : State) : (reports : Bool) → Circuits → Prop where
  | record (permit : Permit) (success : Bool) :
      Touches s true (s.circuits.record s.now permit success)
  | enter (pair : String) : Touches s false (s.circuits.enter s.now pair).1
  | release (permit : Permit) : Touches s false (s.circuits.release permit)
  | nothing : Touches s false s.circuits

theorem Transition.touches (ht : Transition e s r p s' p')
    (hs : step e s ⟨r, p, began⟩ = some (s', ⟨r, p', began'⟩)) :
    Touches s ((p.mark? p').any (· == .reported)) s'.circuits := by
  cases ht with
  | hit hget =>
    rw [step_resolved hs, State.lookUp, hget]
    exact .nothing
  | find hget =>
    rw [step_leading hs, State.lookUp, hget]
    exact .nothing
  | @refuse rt | @enter rt =>
    rw [step_missed hs, State.circuits_setCircuits]
    exact .enter rt.pair
  | @follow rt permit =>
    rw [step_follow hs]
    exact .release permit
  | receive ho =>
    simp only [step, ho] at hs
    cases hs
    exact .nothing
  | ask =>
    rw [step_ask hs]
    exact .nothing
  | @record l o =>
    cases hs
    rw [State.record, State.circuits_setCircuits]
    exact .record l.permit o.isOk
  | store =>
    rw [State.circuits_store]
    exact .nothing
  | @publish l o held =>
    cases hs
    cases held with
    | none => exact .nothing
    | some permit => exact .release permit
  | account =>
    cases hs
    rw [e.circuits_account]
    exact .nothing
  | _ => exact .nothing

/-! ### The story of a call -/

end Call

/-! ### The log -/

namespace World

open Call
open History (Along)

/-- What an event leaves in the log: the call and its mark. -/
def noted? (e : Setup) (w : World) : Event → Option (Nat × Mark)
  | .wait _ => none
  | .move i =>
    match w.calls[i]?, (w.move e i).calls[i]? with
    | some c, some c' => (c.phase.mark? c'.phase).map (i, ·)
    | _, _ => none

def log (e : Setup) : World → List Event → List (Nat × Mark)
  | _, [] => []
  | w, ev :: rest => (w.noted? e ev).toList ++ log e (w.apply e ev) rest

def marks (e : Setup) (w : World) (history : List Event) : List Mark :=
  (w.log e history).map (·.2)

variable {e : Setup} {w : World}

theorem run_cons (e : Setup) (w : World) (ev : Event) (rest : List Event) :
    w.run e (ev :: rest) = (w.apply e ev).run e rest := rfl

end World

/-! ### No call in progress -/

namespace Phase

/-- The call has not begun, or it is finished. -/
def isIdle : Phase → Bool
  | .queued | .arrived | .finished _ => true
  | _ => false

end Phase

namespace Call

end Call

namespace World

open Call
open History (Along)

/-- No call is in progress. -/
def Quiet (w : World) : Prop := ∀ c ∈ w.calls, c.phase.isIdle = true

instance (w : World) : Decidable w.Quiet := inferInstanceAs (Decidable (∀ c ∈ w.calls, _))

section Runs

variable {e : Setup} {rs : List Request} {history : List Event}

end Runs

/-! ### Four ways out -/

namespace FourExits

def request : Request := ⟨"a=b", "siem", "siem", {}⟩

def requests : List Request := [request, request, ⟨" ", "siem", "siem", {}⟩, request]

/-- The first call does its work, the second follows it, the third is turned away and the fourth
comes when the result is stored. -/
def history : List Event :=
  [0, 0, 0, 1, 1, 1, 0, 1, 0, 0, 0, 0, 0, 0, 1, 1, 2, 2, 3, 3, 3].map .move

def world : World := (start {} requests).run {} history

def marks : List Mark := (start {} requests).marks {} history

theorem facts :
    Along (apply {}) (fun w ev => w.expires ev = false) (start {} requests) history ∧
    world.Quiet ∧ world.calls.countP (·.outcome?.isSome) = 4 ∧
    (world.calls.countP fun c => c.outcome?.any (·.isOk)) = 3 := by
  decide +kernel

end FourExits

end World

end Engine

end RuleExchange
