import RuleExchange.Engine.Call
import RuleExchange.Proofs.CacheEntries
import RuleExchange.Proofs.FingerprintEncoding
import RuleExchange.Proofs.FlightTickets
import RuleExchange.Proofs.Sequencing

/-! What one step of a call can do. Most steps touch neither the cache nor the work under
way; the exceptions are the step that begins to lead, the one that stores a result and the
one that publishes. Everything that is proved about runs goes through the transitions
listed here. -/

namespace RuleExchange

/-- The validator is called again only while attempts are left. -/
theorem Remote.of_next_retry {platform : String} {attempts : Nat} {policy : Settings.Retry}
    {made pause : Nat} {answer : Except String (List Warning)}
    (h : next platform attempts policy made answer = .retry pause) : made + 1 < attempts := by
  cases answer with
  | ok warnings => cases h
  | error message =>
    simp only [next] at h
    split at h
    · assumption
    · cases h

namespace Engine

/-! ### The shared state -/

/-- The cache, the work under way and the clock are the same in both states. -/
structure State.Keeps (s s' : State) : Prop where
  cache : s'.cache = s.cache
  flights : s'.flights = s.flights
  now : s'.now = s.now

namespace State

theorem keeps_setCircuits (s : State) (pair : String) (cs : Circuits) :
    s.Keeps (s.setCircuits pair cs) := by
  unfold setCircuits
  split <;> exact ⟨rfl, rfl, rfl⟩

theorem lookUp_cases (s : State) (k : Fingerprint) :
    (∃ x s', s.cache.get? k = some x ∧ s.Keeps s' ∧ s.lookUp k = (s', some x)) ∨
    (s.cache.get? k = none ∧ s.lookUp k = (s, none)) := by
  cases h : s.cache.get? k with
  | some x =>
    have hl : s.lookUp k =
        ({ s with tally := s.tally.hit }.emit ⟨Telemetry.cacheHitsTotal, [], .count⟩, some x) := by
      simp [lookUp, h]
    refine .inl ⟨x, _, rfl, ?_, hl⟩
    exact ⟨rfl, rfl, rfl⟩
  | none => exact .inr ⟨rfl, by simp [lookUp, h]⟩

/-- A call that is not let in is told that the circuit of its pair is open. -/
theorem enter_cases (s : State) (pair : String) :
    (∃ ms s', s.Keeps s' ∧ s.enter pair = (s', .error (.circuitOpen pair ms))) ∨
    (∃ p s', s.Keeps s' ∧ s.enter pair = (s', .ok p)) := by
  cases h : (((s.circuits.get? pair).getD {}).enter s.circuits.settings s.now).2 with
  | error ms =>
    exact .inl ⟨ms, _, keeps_setCircuits s pair _, by simp [enter, Circuits.enter, h]; rfl⟩
  | ok trial =>
    exact .inr ⟨⟨pair, trial⟩, _, keeps_setCircuits s pair _,
      by simp [enter, Circuits.enter, h]; rfl⟩

theorem keeps_record (s : State) (p : Permit) (success : Bool) : s.Keeps (s.record p success) :=
  keeps_setCircuits s p.pair _

theorem keeps_release (s : State) (p : Permit) : s.Keeps (s.release p) := ⟨rfl, rfl, rfl⟩

theorem keeps_share (s : State) : s.Keeps s.share := ⟨rfl, rfl, rfl⟩

@[simp] theorem flights_store (s : State) (k : Fingerprint) (o : Outcome) :
    (s.store k o).flights = s.flights := by
  cases o <;> rfl

theorem mem_cache_store {s : State} {k k' : Fingerprint} {o : Outcome} {x : Exchange}
    (h : (k', x) ∈ (s.store k o).cache.entries) :
    (k' = k ∧ o = .ok x) ∨ (k', x) ∈ s.cache.entries := by
  cases o with
  | error f => exact .inr h
  | ok y =>
    rcases Cache.mem_insert h with h | h
    · cases h
      exact .inl ⟨rfl, rfl⟩
    · exact .inr h

end State

theorem Setup.keeps_account (e : Setup) (r : Request) (elapsedMs : Nat) (o : Outcome)
    (s : State) : s.Keeps (e.account r elapsedMs o s) := by
  cases o <;> exact ⟨rfl, rfl, rfl⟩

/-! ### The work of a request -/

/-- What a request gets when it is worked on alone and no validator is asked. -/
def Setup.work (e : Setup) (rt : Route) (r : Request) : Outcome := do
  let d ← e.draft rt r
  e.finish rt.target d

/-- A finished draft, with warnings that were added to its own. -/
def Setup.finishWith (e : Setup) (rt : Route) (d : Draft) (warnings : List Warning) : Outcome :=
  e.finish rt.target { d with warnings := d.warnings ++ warnings }

theorem Setup.work_of_error {e : Setup} {rt : Route} {r : Request} {f : Failure}
    (h : e.draft rt r = .error f) : e.work rt r = .error f := by
  simp [work, h, bind, Except.bind]

theorem Setup.work_of_ok {e : Setup} {rt : Route} {r : Request} {d : Draft}
    (h : e.draft rt r = .ok d) : e.work rt r = e.finishWith rt d [] := by
  simp [work, finishWith, h, bind, Except.bind]

/-- Warnings do not decide whether a draft passes. -/
theorem Setup.isOk_finishWith (e : Setup) (rt : Route) (d : Draft) (warnings : List Warning) :
    (e.finishWith rt d warnings).isOk = (e.finishWith rt d []).isOk := by
  simp only [finishWith, finish, Pipeline.finish]
  split <;> rfl

/-! ### What the work reads -/

namespace Call

/-- A request is accepted when it passes its check and both of its platforms are known. -/
theorem of_route {e : Setup} {r : Request} {rt : Route} (h : route e r = .ok rt) :
    r.check = .ok () ∧ e.resolve r.source = .ok rt.source ∧
      e.resolve r.target = .ok rt.target ∧ rt.key = .ofRequest r := by
  unfold route at h
  obtain ⟨⟨⟩, hcheck, h⟩ := ok_of_bind h
  obtain ⟨source, hsource, h⟩ := ok_of_bind h
  obtain ⟨target, htarget, h⟩ := ok_of_bind h
  cases h
  exact ⟨hcheck, hsource, htarget, rfl⟩

theorem key_of_route {e : Setup} {r : Request} {rt : Route} (h : route e r = .ok rt) :
    rt.key = .ofRequest r := (of_route h).2.2.2

end Call

theorem Setup.resolve_congr {e : Setup} {a b : String} {p q : Platform}
    (h : Fingerprint.platformName a = Fingerprint.platformName b) (hp : e.resolve a = .ok p)
    (hq : e.resolve b = .ok q) : p = q := by
  have hfind : e.registry.find? a = e.registry.find? b :=
    congrArg (Json.lookup · e.registry.platforms) h
  unfold resolve at hp hq
  rw [hfind] at hp
  split at hp
  · rename_i x hx
    rw [hx] at hq
    cases hp
    cases hq
    rfl
  · cases hp

theorem Setup.draft_congr {e : Setup} {r q : Request} {rt qt : Route} (h : Fingerprint.Alike r q)
    (hsource : rt.source = qt.source) (htarget : rt.target = qt.target) :
    e.draft rt r = e.draft qt q := by
  simp only [draft, Pipeline.draft, Options.conversion, h.content, h.level, h.preserveComments,
    h.strict, h.targetVersion, hsource, htarget]

/-- Requests that are alike have the same work. -/
theorem Setup.work_congr {e : Setup} {r q : Request} {rt qt : Route} (h : Fingerprint.Alike r q)
    (hr : Call.route e r = .ok rt) (hq : Call.route e q = .ok qt) : e.work rt r = e.work qt q := by
  obtain ⟨-, hrs, hrt, -⟩ := Call.of_route hr
  obtain ⟨-, hqs, hqt, -⟩ := Call.of_route hq
  have htarget := resolve_congr h.target hrt hqt
  simp only [work, draft_congr h (resolve_congr h.source hrs hqs) htarget, htarget]

/-! ### Transitions -/

namespace Call

/-- The steps of a call for request `r` in state `s`, from phase to phase. -/
inductive Transition (e : Setup) (s : State) (r : Request) : Phase → State → Phase → Prop where
  | reject {f} (h : route e r = .error f) : Transition e s r .arrived s (.answered (.error f))
  | resolve {rt} (h : route e r = .ok rt) : Transition e s r .arrived s (.resolved rt)
  | hit {rt x s'} (h : s.cache.get? rt.key = some x) (hs : s.Keeps s') :
      Transition e s r (.resolved rt) s' (.answered (.ok x))
  | miss {rt} (h : s.cache.get? rt.key = none) : Transition e s r (.resolved rt) s (.missed rt)
  | refuse {rt ms s'} (hs : s.Keeps s') :
      Transition e s r (.missed rt) s' (.answered (.error (.circuitOpen rt.pair ms)))
  | enter {rt p s'} (hs : s.Keeps s') : Transition e s r (.missed rt) s' (.entered rt p)
  | follow {rt p t s'} (h : (rt.key, t) ∈ s.flights.underWay) (hs : s.Keeps s') :
      Transition e s r (.entered rt p) s' (.following t (s.now + r.options.timeoutMs))
  | lead {rt p} (h : ∀ t, (rt.key, t) ∉ s.flights.underWay) :
      Transition e s r (.entered rt p) { s with flights := s.flights.launch rt.key }
        (.leading ⟨rt, p, ⟨rt.key, s.flights.nextTicket⟩, s.now + r.options.timeoutMs⟩)
  | receive {t d o s'} (h : s.flights.result? t = some (some o)) (hs : s.Keeps s') :
      Transition e s r (.following t d) s' (.answered o)
  | lose {t d} (h : s.flights.result? t = some none) :
      Transition e s r (.following t d) s (.answered (.error (timeoutFailure r.options)))
  | leave {t d} (h : s.flights.result? t = none) (hd : d ≤ s.now) :
      Transition e s r (.following t d) s (.answered (.error (timeoutFailure r.options)))
  | find {l x s'} (h : s.cache.get? l.route.key = some x) (hs : s.Keeps s') :
      Transition e s r (.leading l) s' (.publishing l (.ok x) (some l.permit))
  | begin {l} (h : s.cache.get? l.route.key = none) :
      Transition e s r (.leading l) s (.executing l (s.now + e.workMs l.leader.ticket))
  | fail {l ready f} (h : e.draft l.route r = .error f) :
      Transition e s r (.executing l ready) s (.concluded l (.error f))
  | finish {l ready d} (h : e.draft l.route r = .ok d) (hv : e.validator = none) :
      Transition e s r (.executing l ready) s (.concluded l (e.finishWith l.route d []))
  | write {l ready d} (h : e.draft l.route r = .ok d) (hv : e.validator ≠ none) :
      Transition e s r (.executing l ready) s (.pausing l d 0 s.now)
  | lateExecuting {l ready} (hw : s.now < ready) (hd : l.deadline ≤ s.now) :
      Transition e s r (.executing l ready) s
        (.concluded l (.error (timeoutFailure r.options)))
  | skip {l d made wake} (hv : e.validator = none) :
      Transition e s r (.pausing l d made wake) s (.concluded l (e.finishWith l.route d []))
  | ask {l d made wake answer wake' s'} (hs : s.Keeps s') :
      Transition e s r (.pausing l d made wake) s' (.asking l d made answer wake')
  | latePausing {l d made wake} (hw : s.now < wake) (hd : l.deadline ≤ s.now) :
      Transition e s r (.pausing l d made wake) s
        (.concluded l (.error (timeoutFailure r.options)))
  | accept {l d made answer wake warnings} :
      Transition e s r (.asking l d made answer wake) s
        (.concluded l (e.finishWith l.route d warnings))
  | retry {l d made answer wake wake'}
      (h : made + 1 < Remote.attemptsFor r.options.retryAttempts) :
      Transition e s r (.asking l d made answer wake) s (.pausing l d (made + 1) wake')
  | lateAsking {l d made answer wake} (hw : s.now < wake) (hd : l.deadline ≤ s.now) :
      Transition e s r (.asking l d made answer wake) s
        (.concluded l (.error (timeoutFailure r.options)))
  | record {l o s'} (hs : s.Keeps s') : Transition e s r (.concluded l o) s' (.recorded l o)
  | store {l o} :
      Transition e s r (.recorded l o) (s.store l.route.key o) (.publishing l o none)
  | publish {l o held s'} (hs : (s.publish l.leader o).Keeps s') :
      Transition e s r (.publishing l o held) s' (.answered o)
  | account {o s'} (hs : s.Keeps s') : Transition e s r (.answered o) s' (.finished o)

theorem execute_transition (e : Setup) (s : State) (r : Request) (l : Lead) (ready : Nat) :
    Transition e s r (.executing l ready) s (execute e s r l) := by
  unfold execute
  split
  · rename_i f hf
    exact .fail hf
  · rename_i d hd
    split
    · rename_i hv
      exact .finish hd hv
    · rename_i hv
      exact .write hd (by simp [hv])

theorem consider_transition (e : Setup) (s : State) (r : Request) (l : Lead) (d : Draft)
    (made : Nat) (answer : Except String (List Warning)) (wake : Nat) :
    Transition e s r (.asking l d made answer wake) s (consider e s r l d made answer) := by
  simp only [consider]
  split
  · exact .accept
  · rename_i pause hnext
    exact .retry (Remote.of_next_retry hnext)

theorem await_eq_some {s s' : State} {c c' : Call} {l : Lead}
    (h : await s c l = some (s', c')) :
    l.deadline ≤ s.now ∧ s' = s ∧
      c' = c.go s.now (.concluded l (.error (timeoutFailure c.request.options))) := by
  unfold await at h
  split at h
  · rename_i hd
    cases h
    exact ⟨hd, rfl, rfl⟩
  · cases h

/-- Every step is one of the transitions. -/
theorem step_transition {e : Setup} {s s' : State} {c c' : Call}
    (h : c.step e s = some (s', c')) :
    ∃ p, c' = c.go s.now p ∧ Transition e s c.request c.phase s' p := by
  obtain ⟨r, p, began⟩ := c
  cases p with
  | queued => cases h
  | arrived =>
    cases hr : route e r with
    | error f =>
      simp only [step, hr] at h
      cases h
      exact ⟨_, rfl, .reject hr⟩
    | ok rt =>
      simp only [step, hr] at h
      cases h
      exact ⟨_, rfl, .resolve hr⟩
  | resolved rt =>
    rcases s.lookUp_cases rt.key with ⟨x, s₁, hx, hs, hl⟩ | ⟨hx, hl⟩
    · simp only [step, hl] at h
      cases h
      exact ⟨_, rfl, .hit hx hs⟩
    · simp only [step, hl] at h
      cases h
      exact ⟨_, rfl, .miss hx⟩
  | missed rt =>
    rcases s.enter_cases rt.pair with ⟨ms, s₁, hs, hl⟩ | ⟨p, s₁, hs, hl⟩
    · simp only [step, hl] at h
      cases h
      exact ⟨_, rfl, .refuse hs⟩
    · simp only [step, hl] at h
      cases h
      exact ⟨_, rfl, .enter hs⟩
  | entered rt p =>
    rcases s.flights.join_cases rt.key with ⟨t, ht, hj⟩ | ⟨ht, hj⟩
    · simp only [step, hj] at h
      cases h
      exact ⟨_, rfl, .follow ht (s.keeps_release p)⟩
    · simp only [step, hj] at h
      cases h
      exact ⟨_, rfl, .lead ht⟩
  | following t deadline =>
    simp only [step] at h
    split at h
    · rename_i o ho
      cases h
      exact ⟨_, rfl, .receive ho s.keeps_share⟩
    · rename_i ho
      cases h
      exact ⟨_, rfl, .lose ho⟩
    · rename_i ho
      split at h
      · rename_i hd
        cases h
        exact ⟨_, rfl, .leave ho hd⟩
      · cases h
  | leading l =>
    rcases s.lookUp_cases l.route.key with ⟨x, s₁, hx, hs, hl⟩ | ⟨hx, hl⟩
    · simp only [step, hl] at h
      cases h
      exact ⟨_, rfl, .find hx hs⟩
    · simp only [step, hl] at h
      cases h
      exact ⟨_, rfl, .begin hx⟩
  | executing l ready =>
    simp only [step] at h
    split at h
    · cases h
      exact ⟨_, rfl, execute_transition e s r l ready⟩
    · rename_i hw
      obtain ⟨hd, rfl, rfl⟩ := await_eq_some h
      exact ⟨_, rfl, .lateExecuting (by omega) hd⟩
  | pausing l d made wake =>
    simp only [step] at h
    split at h
    · rename_i hv
      cases h
      exact ⟨_, rfl, .skip hv⟩
    · split at h
      · cases h
        exact ⟨_, rfl, .ask ⟨rfl, rfl, rfl⟩⟩
      · rename_i hw
        obtain ⟨hd, rfl, rfl⟩ := await_eq_some h
        exact ⟨_, rfl, .latePausing (by omega) hd⟩
  | asking l d made answer wake =>
    simp only [step] at h
    split at h
    · cases h
      exact ⟨_, rfl, consider_transition e s r l d made answer wake⟩
    · rename_i hw
      obtain ⟨hd, rfl, rfl⟩ := await_eq_some h
      exact ⟨_, rfl, .lateAsking (by omega) hd⟩
  | concluded l o =>
    cases h
    exact ⟨_, rfl, .record (s.keeps_record l.permit o.isOk)⟩
  | recorded l o =>
    cases h
    exact ⟨_, rfl, .store⟩
  | publishing l o held =>
    cases h
    refine ⟨_, rfl, .publish ?_⟩
    cases held with
    | none => exact ⟨rfl, rfl, rfl⟩
    | some p => exact State.keeps_release _ p
  | answered o =>
    cases h
    exact ⟨_, rfl, .account (e.keeps_account r _ o s)⟩
  | finished o => cases h

end Call

/-! ### Leaders and time limits -/

def Phase.lead? : Phase → Option Lead
  | .leading l | .executing l _ | .pausing l _ _ _ | .asking l _ _ _ _ | .concluded l _
  | .recorded l _ | .publishing l _ _ => some l
  | _ => none

namespace Call

/-- If the call takes a step now, it is because its time limit has run out. -/
def expires (s : State) (c : Call) : Bool :=
  match c.phase with
  | .following t deadline => (s.flights.result? t).isNone && deadline ≤ s.now
  | .executing l ready => s.now < ready && l.deadline ≤ s.now
  | .pausing l _ _ wake => s.now < wake && l.deadline ≤ s.now
  | .asking l _ _ _ wake => s.now < wake && l.deadline ≤ s.now
  | _ => false

variable {e : Setup} {s s' : State} {r : Request} {p p' : Phase}

/-- A step leaves the work under way as it is, begins to lead, or publishes. -/
theorem Transition.flights_cases (h : Transition e s r p s' p') :
    (s'.flights = s.flights ∧ p'.lead? = p.lead?) ∨
    (∃ l, p.lead? = none ∧ p' = .leading l ∧ l.leader = ⟨l.route.key, s.flights.nextTicket⟩ ∧
      (∀ t, (l.route.key, t) ∉ s.flights.underWay) ∧
      s'.flights = s.flights.launch l.route.key) ∨
    (∃ l o, p.lead? = some l ∧ p'.lead? = none ∧ (∃ held, p = .publishing l o held) ∧
      s'.flights = s.flights.publish l.leader o) := by
  cases h with
  | lead h => exact .inr (.inl ⟨_, rfl, rfl, rfl, h, rfl⟩)
  | publish hs => exact .inr (.inr ⟨_, _, rfl, rfl, ⟨_, rfl⟩, hs.flights⟩)
  | store => exact .inl ⟨s.flights_store _ _, rfl⟩
  | hit _ hs | refuse hs | enter hs | follow _ hs | receive _ hs | find _ hs | ask hs | record hs
  | account hs => exact .inl ⟨hs.flights, rfl⟩
  | _ => exact .inl ⟨rfl, rfl⟩

/-- Only a recorded outcome changes the cache. -/
theorem Transition.cache_cases (h : Transition e s r p s' p') :
    s'.cache = s.cache ∨
      ∃ l o, p = .recorded l o ∧ p' = .publishing l o none ∧ s' = s.store l.route.key o := by
  cases h with
  | store => exact .inr ⟨_, _, rfl, rfl, rfl⟩
  | hit _ hs | refuse hs | enter hs | follow _ hs | receive _ hs | find _ hs | ask hs | record hs
  | publish hs | account hs => exact .inl hs.cache
  | _ => exact .inl rfl

end Call

namespace World

theorem move_of_step {e : Setup} {w : World} {i : Nat} {c : Call} (hc : w.calls[i]? = some c)
    (h : c.step e w.state ≠ none) :
    ∃ s' p, c.step e w.state = some (s', c.go w.state.now p) ∧
      Call.Transition e w.state c.request c.phase s' p ∧
      w.move e i = ⟨s', w.calls.set i (c.go w.state.now p)⟩ := by
  obtain ⟨⟨s', c'⟩, hs⟩ := Option.ne_none_iff_exists'.mp h
  obtain ⟨p, rfl, hp⟩ := Call.step_transition hs
  exact ⟨s', p, hs, hp, by simp [move, hc, hs]⟩

/-- A move changes nothing, or it is a transition of the call. -/
theorem move_cases (e : Setup) (w : World) (i : Nat) :
    w.move e i = w ∨
    ∃ c s' p, w.calls[i]? = some c ∧ c.step e w.state = some (s', c.go w.state.now p) ∧
      Call.Transition e w.state c.request c.phase s' p ∧
      w.move e i = ⟨s', w.calls.set i (c.go w.state.now p)⟩ := by
  cases hc : w.calls[i]? with
  | none => exact .inl (by simp [move, hc])
  | some c =>
    by_cases hs : c.step e w.state = none
    · exact .inl (by simp [move, hc, hs])
    · obtain ⟨s', p, h⟩ := move_of_step hc hs
      exact .inr ⟨c, s', p, rfl, h⟩

/-- The event makes a call leave because its time limit has run out. -/
def expires (w : World) : Event → Bool
  | .move i => (w.calls[i]?).any (·.expires w.state)
  | .wait _ => false

end World

end Engine

end RuleExchange
