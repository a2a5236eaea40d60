import RuleExchange.Proofs.Ledger
import RuleExchange.Service.Api

/-! What a call leaves behind. Every step of a call does one of a few things to the state that
calls share, or nothing: it asks a circuit, gives a permit back, begins to lead, reports,
stores or publishes. The trail of a call is the list of these effects. Whatever the other
calls do in between, the trail of a finished call has one of seven shapes, in which every
permit is used up once and every lead is published. A call that is turned away at the door
leaves no trail at all, and one that ends in a failure has stored nothing. -/

namespace RuleExchange

theorem Circuits.pair_of_enter {cs cs' : Circuits} {now : Nat} {pair : String} {p : Permit}
    (h : cs.enter now pair = (cs', .ok p)) : p.pair = pair := by
  have hresult := congrArg Prod.snd h
  simp only [enter] at hresult
  split at hresult
  · cases hresult
    rfl
  · cases hresult

namespace Engine

/-! ### Effects -/

/-- What a step of a call does to the state that calls share. -/
inductive Effect where
  /-- The circuit of the pair does not let the call in. -/
  | refused (pair : String) (ms : Nat)
  | granted (p : Permit)
  /-- A permit goes back unused. -/
  | returned (p : Permit)
  | launched (l : Leader Fingerprint)
  /-- A permit is used up by the report of an outcome. -/
  | reported (p : Permit) (success : Bool)
  | stored (k : Fingerprint) (x : Exchange)
  /-- A leader publishes; a permit that it still holds goes back unused. -/
  | landed (l : Leader Fingerprint) (o : Outcome) (held : Option Permit)

def Phase.effect? : Phase → Phase → Option Effect
  | .missed _, .answered (.error (.circuitOpen pair ms)) => some (.refused pair ms)
  | .missed _, .entered _ p => some (.granted p)
  | .entered _ p, .following _ _ => some (.returned p)
  | .entered _ _, .leading l => some (.launched l.leader)
  | .concluded l o, .recorded _ _ => some (.reported l.permit o.isOk)
  | .recorded l (.ok x), .publishing _ _ _ => some (.stored l.route.key x)
  | .publishing l o held, .answered _ => some (.landed l.leader o held)
  | _, _ => none

theorem Phase.effect?_self (p : Phase) : p.effect? p = none := by
  cases p with
  | recorded l o => cases o <;> rfl
  | _ => rfl

/-- The state that calls share, without counts, samples and the clock. -/
structure Shared where
  cache : Cache Fingerprint Exchange
  flights : Outcomes
  circuits : Circuits

def State.shared (s : State) : Shared := ⟨s.cache, s.flights, s.circuits⟩

/-- What an effect makes of the shared state; no effect leaves it as it is. -/
inductive Makes (s : State) : Option Effect → Shared → Prop where
  | nothing : Makes s none s.shared
  | refused {pair ms cs} (h : s.circuits.enter s.now pair = (cs, .error (.circuitOpen pair ms))) :
      Makes s (some (.refused pair ms)) { s.shared with circuits := cs }
  | granted {p cs} (h : s.circuits.enter s.now p.pair = (cs, .ok p)) :
      Makes s (some (.granted p)) { s.shared with circuits := cs }
  | returned (p : Permit) :
      Makes s (some (.returned p)) { s.shared with circuits := s.circuits.release p }
  | launched {l : Leader Fingerprint}
      (h : s.flights.join l.key = (s.flights.launch l.key, .leader l)) :
      Makes s (some (.launched l)) { s.shared with flights := s.flights.launch l.key }
  | reported (p : Permit) (success : Bool) :
      Makes s (some (.reported p success))
        { s.shared with circuits := s.circuits.record s.now p success }
  | stored (k : Fingerprint) (x : Exchange) :
      Makes s (some (.stored k x)) { s.shared with cache := s.cache.insert k x }
  | landed (l : Leader Fingerprint) (o : Outcome) (held : Option Permit) :
      Makes s (some (.landed l o held))
        { s.shared with
          flights := s.flights.publish l o
          circuits := held.elim s.circuits s.circuits.release }

/-- Only a result that is stored changes the cache. -/
theorem Makes.cache_eq {s : State} {x : Option Effect} {after : Shared} (h : Makes s x after)
    (hx : ∀ k r, x ≠ some (.stored k r)) : after.cache = s.cache := by
  cases h with
  | stored k r => exact absurd rfl (hx k r)
  | _ => rfl

theorem State.shared_setCircuits (s : State) (pair : String) (cs : Circuits) :
    (s.setCircuits pair cs).shared = { s.shared with circuits := cs } := by
  unfold setCircuits
  split <;> rfl

theorem State.shared_lookUp (s : State) (k : Fingerprint) : (s.lookUp k).1.shared = s.shared := by
  unfold lookUp
  split <;> rfl

theorem Setup.shared_account (e : Setup) (r : Request) (elapsedMs : Nat) (o : Outcome)
    (s : State) : (e.account r elapsedMs o s).shared = s.shared := by
  cases o <;> rfl

namespace Call

variable {e : Setup} {s s' : State} {r : Request} {p p' : Phase} {began began' : Option Nat}

/-- A call at a circuit is refused or gets its permit, and the circuits are as they say. -/
theorem step_missed_cases {rt : Route}
    (hs : step e s ⟨r, .missed rt, began⟩ = some (s', ⟨r, p', began'⟩)) :
    ∃ cs answer, s.circuits.enter s.now rt.pair = (cs, answer) ∧
      s'.shared = { s.shared with circuits := cs } ∧
      p' = match answer with
        | .error f => .answered (.error f)
        | .ok permit => .entered rt permit := by
  rcases henter : s.circuits.enter s.now rt.pair with ⟨cs, answer⟩
  have hstate : s.enter rt.pair = (s.setCircuits rt.pair cs, answer) := by
    simp [State.enter, henter]
  refine ⟨cs, answer, rfl, ?_⟩
  simp only [step, hstate] at hs
  cases answer with
  | error f =>
    cases hs
    exact ⟨s.shared_setCircuits _ _, rfl⟩
  | ok permit =>
    cases hs
    exact ⟨s.shared_setCircuits _ _, rfl⟩

theorem step_lead {rt : Route} {permit : Permit} {l : Lead}
    (hs : step e s ⟨r, .entered rt permit, began⟩ = some (s', ⟨r, .leading l, began'⟩)) :
    s.flights.join l.leader.key = (s.flights.launch l.leader.key, .leader l.leader) ∧
      s' = { s with flights := s.flights.launch l.leader.key } := by
  rcases s.flights.join_cases rt.key with ⟨t, -, hj⟩ | ⟨-, hj⟩
  · simp [step, hj, go] at hs
  · simp only [step, hj] at hs
    cases hs
    exact ⟨hj, rfl⟩

/-- A step does to the shared state what its effect says, and nothing else. -/
theorem Transition.makes (ht : Transition e s r p s' p')
    (hs : step e s ⟨r, p, began⟩ = some (s', ⟨r, p', began'⟩)) :
    Makes s (p.effect? p') s'.shared := by
  cases ht with
  | hit =>
    rw [step_resolved hs, State.shared_lookUp]
    exact .nothing
  | find =>
    rw [step_leading hs, State.shared_lookUp]
    exact .nothing
  | refuse =>
    obtain ⟨cs, answer, henter, hshared, hphase⟩ := step_missed_cases hs
    rw [hshared]
    cases answer with
    | ok permit => cases hphase
    | error f =>
      cases hphase
      exact .refused henter
  | enter =>
    obtain ⟨cs, answer, henter, hshared, hphase⟩ := step_missed_cases hs
    rw [hshared]
    cases answer with
    | error f => cases hphase
    | ok permit =>
      cases hphase
      exact .granted (Circuits.pair_of_enter henter ▸ henter)
  | follow =>
    rw [step_follow hs]
    exact .returned _
  | lead =>
    obtain ⟨hjoin, -⟩ := step_lead hs
    exact .launched hjoin
  | receive ho =>
    simp only [step, ho] at hs
    cases hs
    exact .nothing
  | ask =>
    rw [step_ask hs]
    exact .nothing
  | record =>
    cases hs
    rw [State.record, State.shared_setCircuits]
    exact .reported _ _
  | @store l o =>
    cases o with
    | error f => exact .nothing
    | ok x => exact .stored _ x
  | @publish l o held =>
    cases hs
    cases held with
    | none => exact .landed l.leader o none
    | some permit => exact .landed l.leader o (some permit)
  | account =>
    cases hs
    rw [Setup.shared_account]
    exact .nothing
  | _ => exact .nothing

/-! ### The shapes of a trail -/

/-- The trails of the calls that end with an outcome. -/
inductive Departs : Outcome → List Effect → Prop where
  /-- Turned away at the door. -/
  | rejected {f} : Departs (.error f) []
  /-- Found in the cache. -/
  | hit {x} : Departs (.ok x) []
  | refused {pair ms} : Departs (.error (.circuitOpen pair ms)) [.refused pair ms]
  | followed {o p} : Departs o [.granted p, .returned p]
  /-- A leader that found the result in the cache after all. -/
  | found {x p l} : Departs (.ok x) [.granted p, .launched l, .landed l (.ok x) (some p)]
  | failed {f p l} :
      Departs (.error f) [.granted p, .launched l, .reported p false, .landed l (.error f) none]
  | succeeded {x p l k} :
      Departs (.ok x)
        [.granted p, .launched l, .reported p true, .stored k x, .landed l (.ok x) none]

/-- The trail of a call in each of its phases. -/
def Trails (trail : List Effect) : Phase → Prop
  | .queued | .arrived | .resolved _ | .missed _ => trail = []
  | .entered _ p => trail = [.granted p]
  | .following _ _ => ∃ p, trail = [.granted p, .returned p]
  | .leading l | .executing l _ | .pausing l _ _ _ | .asking l _ _ _ _ | .concluded l _ =>
    trail = [.granted l.permit, .launched l.leader]
  | .recorded l o => trail = [.granted l.permit, .launched l.leader, .reported l.permit o.isOk]
  | .publishing l o held => Departs o (trail ++ [.landed l.leader o held])
  | .answered o | .finished o => Departs o trail

theorem Transition.trails (ht : Transition e s r p s' p') {trail : List Effect}
    (h : Trails trail p) : Trails (trail ++ (p.effect? p').toList) p' := by
  cases ht with
  | reject =>
    cases h
    exact .rejected
  | hit =>
    cases h
    exact .hit
  | refuse =>
    cases h
    exact .refused
  | follow =>
    cases h
    exact ⟨_, rfl⟩
  | receive | lose | leave =>
    obtain ⟨permit, rfl⟩ := h
    exact .followed
  | find =>
    cases h
    exact .found
  | @store l o =>
    cases h
    cases o with
    | error f => exact .failed
    | ok x => exact .succeeded
  | publish => exact h
  | account => exact (List.append_nil trail).symm ▸ h
  | _ =>
    cases h
    rfl

/-- What has been stored by a call that is done is its own result. -/
theorem Departs.not_stored {f : Failure} {trail : List Effect} (h : Departs (.error f) trail)
    (k : Fingerprint) (x : Exchange) : .stored k x ∉ trail := by
  cases h <;> simp

end Call

/-! ### Permits and leads of a trail -/

namespace Effect

def granted? : Effect → Option Permit
  | .granted p => some p
  | _ => none

/-- The permit that is used up or goes back. -/
def settled? : Effect → Option Permit
  | .returned p | .reported p _ => some p
  | .landed _ _ held => held
  | _ => none

def launched? : Effect → Option (Leader Fingerprint)
  | .launched l => some l
  | _ => none

def landed? : Effect → Option (Leader Fingerprint)
  | .landed l _ _ => some l
  | _ => none

/-- Every permit was used up or went back once, and every lead was published once. -/
def Balanced (trail : List Effect) : Prop :=
  trail.filterMap granted? = trail.filterMap settled? ∧
    trail.filterMap launched? = trail.filterMap landed?

end Effect

theorem Call.Departs.balanced {o : Outcome} {trail : List Effect} (h : Departs o trail) :
    Effect.Balanced trail := by
  cases h <;> exact ⟨rfl, rfl⟩

/-! ### Trails in a run -/

namespace World

open Call
open History (Along)

/-- What an event does to the shared state. -/
def effect? (e : Setup) (w : World) : Event → Option Effect
  | .wait _ => none
  | .move i =>
    match w.calls[i]?, (w.move e i).calls[i]? with
    | some c, some c' => c.phase.effect? c'.phase
    | _, _ => none

/-- The effects of one call, in their order. -/
def trail (e : Setup) (i : Nat) : World → List Event → List Effect
  | _, [] => []
  | w, ev :: rest =>
    (if ev = .move i then (w.effect? e ev).toList else []) ++ trail e i (w.apply e ev) rest

variable {e : Setup} {w : World}

theorem effect?_of_move_eq {i : Nat} (h : w.move e i = w) : w.effect? e (.move i) = none := by
  cases hc : w.calls[i]? with
  | none => simp [effect?, hc]
  | some c => simp [effect?, h, hc, Phase.effect?_self]

theorem effect?_of_moved {i : Nat} {c : Call} {s' : State} {p : Phase} (hc : w.calls[i]? = some c)
    (h : w.move e i = ⟨s', w.calls.set i (c.go w.state.now p)⟩) :
    w.effect? e (.move i) = c.phase.effect? p := by
  have hmoved : (w.move e i).calls[i]? = some (c.go w.state.now p) := by
    rw [h, getElem?_moved hc, if_pos rfl]
  simp [effect?, hc, hmoved, go]

/-- Every event does to the shared state what its effect says, and nothing else. -/
theorem makes_event (e : Setup) (w : World) (ev : Event) :
    Makes w.state (w.effect? e ev) (w.apply e ev).state.shared := by
  cases ev with
  | wait ms => exact .nothing
  | move i =>
    rcases w.move_cases e i with hm | ⟨c, s', p, hc, hs, ht, hm⟩
    · rw [effect?_of_move_eq hm, apply, hm]
      exact .nothing
    · rw [effect?_of_moved hc hm, apply, hm]
      exact ht.makes hs

theorem getElem?_apply_of_ne {ev : Event} {i : Nat} (h : ev ≠ .move i) :
    (w.apply e ev).calls[i]? = w.calls[i]? := by
  cases ev with
  | wait ms => rfl
  | move j =>
    rcases w.move_cases e j with hm | ⟨c, s', p, hc, -, -, hm⟩
    · rw [apply, hm]
    · have hij : i ≠ j := fun hij => h (hij ▸ rfl)
      rw [apply, hm, getElem?_moved hc, if_neg hij]

theorem trails_run {i : Nat} {c : Call} {left : List Effect} (hc : w.calls[i]? = some c)
    (h : Trails left c.phase) (history : List Event) :
    ∃ c', (w.run e history).calls[i]? = some c' ∧
      Trails (left ++ trail e i w history) c'.phase := by
  induction history generalizing w c left with
  | nil => exact ⟨c, hc, by simpa [trail] using h⟩
  | cons ev rest ih =>
    rw [run_cons, trail, ← List.append_assoc]
    by_cases hev : ev = .move i
    · subst hev
      rw [if_pos rfl]
      rcases w.move_cases e i with hm | ⟨c', s', p, hc', -, ht, hm⟩
      · rw [effect?_of_move_eq hm, apply, hm]
        exact ih hc (by simpa using h)
      · cases hc.symm.trans hc'
        refine ih (c := c.go w.state.now p) ?_ ?_
        · rw [apply, hm, getElem?_moved hc, if_pos rfl]
        · rw [effect?_of_moved hc hm]
          exact ht.trails h
    · refine ih (c := c) ?_ (by simpa [hev] using h)
      rw [getElem?_apply_of_ne hev, hc]

/-- The effects of a call are in its trail. -/
theorem along_trail {i : Nat} {all : List Effect} (w : World) (history : List Event)
    (h : trail e i w history ⊆ all) :
    Along (apply e) (fun w ev => ev = .move i → ∀ x, w.effect? e ev = some x → x ∈ all)
      w history := by
  induction history generalizing w with
  | nil => trivial
  | cons ev rest ih =>
    obtain ⟨hfirst, hrest⟩ := List.append_subset.mp h
    refine ⟨?_, ih _ hrest⟩
    rintro rfl x hx
    exact hfirst (by simp [hx])

/-- A call that stores nothing leaves the cache as it is, whenever it moves. -/
theorem along_cache {i : Nat} {history : List Event}
    (h : ∀ k x, .stored k x ∉ trail e i w history) :
    Along (apply e) (fun w ev => ev = .move i → (w.apply e ev).state.cache = w.state.cache)
      w history := by
  have htrail := along_trail (e := e) (i := i) w history (List.Subset.refl _)
  refine History.along_of_invariant (I := fun _ => True) trivial (fun _ _ _ _ => trivial) ?_ htrail
  intro w' ev _ hmem hev
  exact (makes_event e w' ev).cache_eq fun k x hx => h k x (hmem hev _ hx)

/-! ### Calls that are turned away -/

end World

/-- One more failed call is counted, with the time it has taken, and nothing else but samples
changes. -/
def State.countFailure (s : State) (elapsedMs : Nat) (added : List Sample) : State :=
  { s with
    tally := { s.tally with
      total := Tally.add s.tally.total 1
      failure := Tally.add s.tally.failure 1
      latencyMicros :=
        Tally.add s.tally.latencyMicros (min (1000 * elapsedMs) (Tally.wordSize - 1)) }
    samples := s.samples ++ added }

theorem Setup.account_error (e : Setup) (r : Request) (elapsedMs : Nat) (f : Failure)
    (s : State) : ∃ added, e.account r elapsedMs (.error f) s = s.countFailure elapsedMs added := by
  refine ⟨(e.account r elapsedMs (.error f) { s with samples := [] }).samples, ?_⟩
  simp [account, State.countFailure, State.emit, Tally.record, Except.isOk, Except.toBool]

namespace Call

variable {e : Setup} {s s' : State} {r : Request} {p p' : Phase} {began began' : Option Nat}

/-- The phases of a call that is turned away at the door. -/
def TurnedAway (f : Failure) : Phase → Prop
  | .arrived => True
  | .answered o | .finished o => o = .error f
  | _ => False

/-- Such a call is answered at once, without a change, and then closed. -/
theorem Transition.turnedAway {f : Failure} (hr : route e r = .error f)
    (ht : Transition e s r p s' p') (hs : step e s ⟨r, p, began⟩ = some (s', ⟨r, p', began'⟩))
    (h : TurnedAway f p) :
    TurnedAway f p' ∧ (s' = s ∨ p' = .finished (.error f) ∧
      s' = e.account r (elapsedMs ⟨r, p, began⟩ s.now) (.error f) s) := by
  cases ht with
  | reject hf =>
    cases hr.symm.trans hf
    exact ⟨rfl, .inl rfl⟩
  | resolve hrt => cases hr.symm.trans hrt
  | account =>
    cases h
    cases hs
    exact ⟨rfl, .inr ⟨rfl, rfl⟩⟩
  | _ => exact h.elim

end Call

namespace World

open Call
open History (Along)

variable {e : Setup} {w : World}

/-- A call for this request is turned away or will be. -/
def RejectsAt (i : Nat) (r : Request) (f : Failure) (w : World) : Prop :=
  ∃ p began, w.calls[i]? = some ⟨r, p, began⟩ ∧ TurnedAway f p

/-- An event leaves the state as it is, or it closes the call and counts its failure and the time
that the call has taken. -/
def OnlyCounts (e : Setup) (i : Nat) (f : Failure) (w : World) (ev : Event) : Prop :=
  (w.apply e ev).state = w.state ∨
    w.outcome? i = none ∧ (w.apply e ev).outcome? i = some (.error f) ∧
      ∃ c added, w.calls[i]? = some c ∧
        (w.apply e ev).state = w.state.countFailure (c.elapsedMs w.state.now) added

theorem RejectsAt.apply {i : Nat} {r : Request} {f : Failure} (hr : route e r = .error f)
    (h : w.RejectsAt i r f) (ev : Event) : (w.apply e ev).RejectsAt i r f := by
  obtain ⟨p, began, hc, haway⟩ := h
  by_cases hev : ev = .move i
  · subst hev
    rcases w.move_cases e i with hm | ⟨c, s', p', hc', hs, ht, hm⟩
    · rw [World.apply, hm]
      exact ⟨p, began, hc, haway⟩
    · cases hc.symm.trans hc'
      refine ⟨p', some (began.getD w.state.now), ?_, (ht.turnedAway hr hs haway).1⟩
      rw [World.apply, hm, getElem?_moved hc, if_pos rfl]
      rfl
  · exact ⟨p, began, (getElem?_apply_of_ne hev).trans hc, haway⟩

theorem RejectsAt.onlyCounts {i : Nat} {r : Request} {f : Failure} (hr : route e r = .error f)
    (h : w.RejectsAt i r f) : w.OnlyCounts e i f (.move i) := by
  obtain ⟨p, began, hc, haway⟩ := h
  rcases w.move_cases e i with hm | ⟨c, s', p', hc', hs, ht, hm⟩
  · exact .inl (by rw [World.apply, hm])
  · cases hc.symm.trans hc'
    rcases (ht.turnedAway hr hs haway).2 with hsame | ⟨rfl, hclosed⟩
    · exact .inl (by rw [World.apply, hm, hsame])
    · obtain ⟨added, hadded⟩ := e.account_error r (elapsedMs ⟨r, p, began⟩ w.state.now) f w.state
      refine .inr ⟨?_, ?_, _, added, hc, ?_⟩
      · cases ht with
        | account => simp [World.outcome?, hc, Call.outcome?]
      · rw [World.apply, hm, World.outcome?, getElem?_moved hc, if_pos rfl]
        rfl
      · rw [World.apply, hm, hclosed]
        exact hadded

theorem along_onlyCounts {rs : List Request} {i : Nat} {r : Request} {f : Failure}
    (hi : rs[i]? = some r) (hr : route e r = .error f) (history : List Event) :
    Along (apply e) (fun w ev => ev = .move i → w.OnlyCounts e i f ev) (start e rs) history := by
  have hstart : (start e rs).RejectsAt i r f := ⟨.arrived, none, by simp [start, hi], trivial⟩
  refine History.along_of_invariant (P := fun _ _ => True) (I := RejectsAt i r f) hstart
    (fun w ev h _ => h.apply hr ev) ?_ (History.along_of_forall (fun _ _ => trivial) _ history)
  rintro w ev hreject - rfl
  exact hreject.onlyCounts hr

end World

/-- A request that is turned away, all by itself: it takes two steps and no time, and the schedule
ends. -/
theorem exchange_rejected {e : Setup} {r : Request} {f : Failure} (hr : Call.route e r = .error f)
    (s : State) : (Engine.mk e s).exchange r = (⟨e, e.account r 0 (.error f) s⟩, .error f) := by
  let start : Schedule := { world := ⟨s, [{ request := r }]⟩, ready := [0] }
  have hturns (n : Nat) : (Schedule.turns e (n + 4) start).world =
      ⟨e.account r 0 (.error f) s, [⟨r, .finished (.error f), some s.now⟩]⟩ := by
    simp [start, Schedule.turns, Schedule.resume, Schedule.call?, Call.step, hr, World.move,
      Schedule.landing, Call.isExecuting, Call.go, Call.elapsedMs, Schedule.setAlarms,
      Call.alarms, Call.outcome?, Schedule.freeWorker, Schedule.earliest]
  have hfuel : ∃ n, ([r].map Schedule.turnsFor).foldr (· + ·) 0 * ([r].length + 1) = n + 4 :=
    ⟨_, (Nat.sub_add_cancel (by simp [Schedule.turnsFor]; omega)).symm⟩
  obtain ⟨n, hn⟩ := hfuel
  have hrun : Schedule.run e s 1 [r] = (Schedule.turns e (n + 4) start).world := by
    rw [← hn]
    rfl
  simp only [exchange, exchangeAll, exchangeWith, List.length_singleton, hrun, hturns]
  rfl

end Engine

/-- A request for validation leaves the whole service as it is. -/
theorem Service.Api.respond_validate (a : Api) {r : HttpRequest}
    (h : Route.ofTarget? r.target = some .validate) : (a.respond r).1 = a := by
  have hact : (a.validate r).1 = a := by
    unfold validate
    split
    · rfl
    · split <;> rfl
  simp only [respond, h]
  split
  · exact hact
  · rfl

namespace Engine

/-- The request does not pass its check, or one of its platforms is not known. -/
def Setup.TurnsAway (e : Setup) (r : Request) : Prop :=
  r.check ≠ .ok () ∨ e.registry.find? r.source = none ∨ e.registry.find? r.target = none

theorem Setup.resolve_of_find? {e : Setup} {platform : String}
    (h : e.registry.find? platform = none) :
    e.resolve platform = .error (.unsupportedPlatform platform) := by
  rw [resolve, h]

theorem Call.route_of_turnsAway {e : Setup} {r : Request} (h : e.TurnsAway r) :
    ∃ f, route e r = .error f := by
  cases hroute : route e r with
  | error f => exact ⟨f, rfl⟩
  | ok rt =>
    obtain ⟨hcheck, hsource, htarget, -⟩ := of_route hroute
    rcases h with h | h | h
    · exact absurd hcheck h
    · cases hsource.symm.trans (Setup.resolve_of_find? h)
    · cases htarget.symm.trans (Setup.resolve_of_find? h)

namespace World

open Call
open History (Along)

/-- A finished call leads nothing, so the work that is under way is led by others. -/
theorem Orderly.led_by_others {e : Setup} {w : World} (h : w.Orderly e) {i : Nat} {o : Outcome}
    (ho : w.outcome? i = some o) {k : Fingerprint} {t : Nat}
    (hk : (k, t) ∈ w.state.flights.underWay) :
    ∃ j l, j ≠ i ∧ w.lead? j = some l ∧ l.leader = ⟨k, t⟩ := by
  obtain ⟨j, l, hl, hleader⟩ := h.led k t hk
  refine ⟨j, l, ?_, hl, hleader⟩
  rintro rfl
  obtain ⟨c, hc, hco⟩ := Option.bind_eq_some_iff.mp ho
  rw [lead?_of_call hc, phase_of_outcome? hco] at hl
  cases hl

theorem departs_of_outcome? {e : Setup} {rs : List Request} {history : List Event} {i : Nat}
    {o : Outcome} (ho : ((start e rs).run e history).outcome? i = some o) :
    Departs o (trail e i (start e rs) history) := by
  obtain ⟨c, hc, hco⟩ := Option.bind_eq_some_iff.mp ho
  have hstart : (start e rs).calls[i]? = some { request := c.request } := by
    simp [start, request_of_run hc]
  obtain ⟨c', hc', htrails⟩ := trails_run hstart (show Trails [] .arrived from rfl) history
  cases hc.symm.trans hc'
  rwa [phase_of_outcome? hco] at htrails

/-- After any history of a fresh engine, whatever other calls do in between: a request that is
turned away changes nothing but the counts of calls and failures and the sum of the times, which
grows by the time that it has taken, when it is closed, and so does a whole exchange of such a
request, which takes no time when it has the clock for itself; a call that has ended in a failure
has changed the cache in none of its steps, leads none of the work under way, and every permit
that it was given is used up or has gone back; and a request for validation changes nothing at
all. -/
theorem failures_leave_no_trace (e : Setup) (rs : List Request) (history : List Event) :
    let w := (start e rs).run e history
    Along (apply e) (fun w ev => Makes w.state (w.effect? e ev) (w.apply e ev).state.shared)
      (start e rs) history ∧
    (∀ i r, rs[i]? = some r → e.TurnsAway r → ∃ f,
      Along (apply e) (fun w ev => ev = .move i → w.OnlyCounts e i f ev) (start e rs) history) ∧
    (∀ r, e.TurnsAway r → ∃ f added,
      (Engine.mk e w.state).exchange r = (⟨e, w.state.countFailure 0 added⟩, .error f)) ∧
    (∀ i f, w.outcome? i = some (.error f) →
      Along (apply e) (fun w ev => ev = .move i → (w.apply e ev).state.cache = w.state.cache)
        (start e rs) history ∧
      (∀ k t, (k, t) ∈ w.state.flights.underWay →
        ∃ j l, j ≠ i ∧ w.lead? j = some l ∧ l.leader = ⟨k, t⟩) ∧
      Effect.Balanced (trail e i (start e rs) history)) ∧
    ∀ fresh (r : Service.HttpRequest), Service.Route.ofTarget? r.target = some .validate →
      ((Service.Api.mk ⟨e, w.state⟩ fresh).respond r).1 = ⟨⟨e, w.state⟩, fresh⟩ := by
  intro w
  refine ⟨History.along_of_forall (makes_event e) _ _, fun i r hi haway => ?_, fun r haway => ?_,
    fun i f ho => ?_, fun fresh r hr => Service.Api.respond_validate _ hr⟩
  · obtain ⟨f, hroute⟩ := route_of_turnsAway haway
    exact ⟨f, along_onlyCounts hi hroute history⟩
  · obtain ⟨f, hroute⟩ := route_of_turnsAway haway
    obtain ⟨added, hadded⟩ := e.account_error r 0 f w.state
    exact ⟨f, added, hadded ▸ exchange_rejected hroute w.state⟩
  · have hdeparts := departs_of_outcome? ho
    exact ⟨along_cache hdeparts.not_stored,
      fun k t hk => (orderly_run e rs history).led_by_others ho hk, hdeparts.balanced⟩

namespace FailedLead

def malformed : Request := ⟨"x", "siem", "siem", {}⟩

def blank : Request := ⟨" ", "siem", "siem", {}⟩

theorem turnsAway_blank : ({} : Setup).TurnsAway blank := by
  have hblank : blank.check.isOk = false := by decide +kernel
  refine .inl fun hok => ?_
  rw [hok] at hblank
  cases hblank

/-- Both calls follow their ways to the end, the one that leads is interrupted by the other. -/
def history : List Event := [0, 0, 0, 0, 1, 0, 0, 0, 1, 0, 0, 0].map .move

def world : World := (start {} [malformed, blank]).run {} history

/-- The lead of a request that cannot be read fails; its permit is used up, its key is free again,
and a blank request is only counted afterwards. -/
theorem failed_lead_is_cleared_away :
    (∃ f, world.outcome? 0 = some (.error f) ∧
      Effect.Balanced (trail {} 0 (start {} [malformed, blank]) history)) ∧
    world.state.flights.underWay = [] ∧
    ∃ f added, (Engine.mk {} world.state).exchange blank =
      (⟨{}, world.state.countFailure 0 added⟩, .error f) := by
  obtain ⟨-, -, hexchange, hfailed, -⟩ := failures_leave_no_trace {} [malformed, blank] history
  have hrun : (world.outcome? 0).any (!·.isOk) = true ∧ world.state.flights.underWay = [] := by
    decide +kernel
  obtain ⟨hdone, hempty⟩ := hrun
  obtain ⟨o, ho, hfail⟩ := (Option.any_eq_true _ _).mp hdone
  cases o with
  | ok x => cases hfail
  | error f => exact ⟨⟨f, ho, (hfailed 0 f ho).2.2⟩, hempty, hexchange blank turnsAway_blank⟩

end FailedLead

namespace SlowRejection

open FailedLead (blank turnsAway_blank)

/-- A blank request that has been answered; five milliseconds later it is closed. -/
def before : World := (start {} [blank]).run {} [.move 0, .wait 5]

def after : World := before.apply {} (.move 0)

/-- A call that is turned away adds the time that it has taken, so that the calls and the failures
are not all that it counts. -/
theorem rejected_call_adds_its_time :
    ({} : Setup).TurnsAway blank ∧ before.outcome? 0 = none ∧
    (after.outcome? 0).any (!·.isOk) = true ∧ before.state.tally = {} ∧
    after.state.tally = { total := 1, failure := 1, latencyMicros := 5000 } ∧
    ¬ ∃ added, after.state =
      { before.state with
        tally := { before.state.tally with
          total := Tally.add before.state.tally.total 1
          failure := Tally.add before.state.tally.failure 1 }
        samples := added } := by
  have hrun : before.outcome? 0 = none ∧ (after.outcome? 0).any (!·.isOk) = true ∧
      before.state.tally = {} ∧
      after.state.tally = { total := 1, failure := 1, latencyMicros := 5000 } := by
    decide +kernel
  obtain ⟨hopen, hclosed, hbefore, hafter⟩ := hrun
  refine ⟨turnsAway_blank, hopen, hclosed, hbefore, hafter, ?_⟩
  rintro ⟨added, h⟩
  have hlatency := congrArg (·.tally.latencyMicros) h
  simp [hafter, hbefore] at hlatency

end SlowRejection

end World

end Engine

end RuleExchange
