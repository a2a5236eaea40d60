import RuleExchange.Proofs.Consultation
import RuleExchange.Proofs.WorldProgress

/-! A call that is alone in a fresh engine. Nothing is stored, nobody works on its key and every
circuit lets it in, so it does its own work and asks the validator from its first reply on:
unless its time limit runs out, its outcome is a function of the setup and the request. The
time limit and the number of attempts do not enter the fingerprint. They never change the
content, the metrics or the failure of that outcome, but the number of attempts decides whether
a validator that fails at first is heard, and so it may change the warnings, which are stored
with the result. -/

namespace RuleExchange

namespace Engine

open History (Along)

/-! ### The outcome of a request on its own -/

namespace Setup

/-- The answer to each call of the validator; without a validator there is nothing to say. -/
def answers (e : Setup) (k : Nat) : Except String (List Warning) :=
  match e.validator with
  | none => .ok []
  | some replies => (replies k).answer

/-- The warnings of a validator that is asked from its first reply on. -/
def advice (e : Setup) (rt : Route) (r : Request) : List Warning :=
  (Remote.consult rt.target.id r.options.retryAttempts (e.retryPolicy rt.target) e.answers).warnings

/-- What a request gets when it is the only one of a fresh engine. -/
def alone (e : Setup) (r : Request) : Outcome := do
  let rt ← Call.route e r
  let d ← e.draft rt r
  e.finishWith rt d (e.advice rt r)

variable {e : Setup} {r : Request} {rt : Route} {d : Draft}

theorem advice_of_none (hv : e.validator = none) (rt : Route) (r : Request) :
    e.advice rt r = [] := by
  have hanswer : e.answers 0 = .ok [] := by rw [answers, hv]
  rw [advice, Remote.warnings_consult]
  exact Remote.outlook_of_answer (Remote.attemptsFor_pos _) nofun hanswer

theorem alone_of_rejected {f : Failure} (h : Call.route e r = .error f) :
    e.alone r = .error f := by
  rw [alone, h]
  rfl

theorem alone_of_failed {f : Failure} (h : Call.route e r = .ok rt) (hd : e.draft rt r = .error f) :
    e.alone r = .error f := by
  rw [alone, h]
  show (e.draft rt r >>= _) = _
  rw [hd]
  rfl

theorem alone_of_draft (h : Call.route e r = .ok rt) (hd : e.draft rt r = .ok d) :
    e.alone r = e.finishWith rt d (e.advice rt r) := by
  rw [alone, h]
  show (e.draft rt r >>= _) = _
  rw [hd]
  rfl

end Setup

/-! ### The call in each of its phases -/

/-- Nothing is stored and the validator was not asked. -/
def State.Idle (s : State) : Prop := s.cache.entries = [] ∧ s.consulted = []

/-- No circuit was used, no work is under way and nothing is stored. -/
def State.Untouched (s : State) : Prop :=
  s.circuits.table = [] ∧ s.flights.underWay = [] ∧ s.Idle

namespace State

theorem Idle.get?_eq_none {s : State} (h : s.Idle) (k : Fingerprint) :
    s.cache.get? k = none := by
  simp [Cache.get?, h.1]

/-- A circuit that was never used lets the call in. -/
theorem Untouched.enter {s : State} (h : s.Untouched) (pair : String) :
    ∃ s', s.enter pair = (s', .ok ⟨pair, false⟩) ∧ s'.flights.underWay = [] ∧ s'.Idle := by
  obtain ⟨htable, hflights, hcache, hconsulted⟩ := h
  have hget : s.circuits.get? pair = none := by simp [Circuits.get?, htable, Json.lookup]
  refine ⟨s.setCircuits pair (s.circuits.put pair {}), ?_, ?_⟩
  · simp only [State.enter, Circuits.enter, hget, Option.getD_none]
    rfl
  · unfold setCircuits
    split <;> exact ⟨hflights, hcache, hconsulted⟩

end State

namespace Call

/-- A draft for which `made` calls of the validator are over: what will come of the
consultation is what comes of the whole one. -/
structure Consults (e : Setup) (r : Request) (l : Lead) (d : Draft) (made : Nat) : Prop where
  route : route e r = .ok l.route
  draft : e.draft l.route r = .ok d
  outlook : e.advice l.route r =
    Remote.outlook l.route.target.id (Remote.attemptsFor r.options.retryAttempts)
      (e.retryPolicy l.route.target) e.answers made

/-- What is true of the only call of a fresh engine in each of its phases. -/
def Alone (e : Setup) (s : State) (r : Request) : Phase → Prop
  | .queued | .following _ _ => False
  | .arrived => s.Untouched
  | .resolved rt | .missed rt => route e r = .ok rt ∧ s.Untouched
  | .entered rt _ => route e r = .ok rt ∧ s.flights.underWay = [] ∧ s.Idle
  | .leading l | .executing l _ => route e r = .ok l.route ∧ s.Idle
  | .pausing l d made _ => Consults e r l d made ∧ s.consulted.length = made
  | .asking l d made answer _ =>
    Consults e r l d made ∧ answer = e.answers made ∧ s.consulted.length = made + 1
  | .concluded _ o | .recorded _ o | .publishing _ o _ | .answered o | .finished o => o = e.alone r

variable {e : Setup} {s s' : State} {r : Request} {p p' : Phase} {began began' : Option Nat}

theorem Consults.alone_eq {l : Lead} {d : Draft} {made : Nat} (h : Consults e r l d made)
    {ws : List Warning}
    (hdone : Remote.next l.route.target.id (Remote.attemptsFor r.options.retryAttempts)
      (e.retryPolicy l.route.target) made (e.answers made) = .done ws) :
    e.finishWith l.route d ws = e.alone r := by
  rw [Setup.alone_of_draft h.route h.draft, h.outlook, Remote.outlook_of_done hdone]

/-- What follows the answer to one of the calls of the validator. -/
theorem alone_consider {l : Lead} {d : Draft} {made : Nat} (h : Consults e r l d made)
    (hcount : s.consulted.length = made + 1) :
    Alone e s r (consider e s r l d made (e.answers made)) := by
  simp only [consider]
  split
  · rename_i ws hdone
    exact h.alone_eq hdone
  · rename_i pause hretry
    exact ⟨⟨h.route, h.draft, h.outlook.trans (Remote.outlook_of_retry hretry)⟩, hcount⟩

/-- In time, a call that has an answer of the validator considers it. -/
theorem step_asking {l : Lead} {d : Draft} {made wake : Nat}
    {answer : Except String (List Warning)}
    (hs : step e s ⟨r, .asking l d made answer wake, began⟩ = some (s', ⟨r, p', began'⟩))
    (hx : expires s ⟨r, .asking l d made answer wake, began⟩ = false) :
    s' = s ∧ p' = consider e s r l d made answer := by
  simp only [step] at hs
  split at hs
  · cases hs
    exact ⟨rfl, rfl⟩
  · rename_i hw
    obtain ⟨hd, -, -⟩ := await_eq_some hs
    simp [expires, hd, Nat.not_le.mp hw] at hx

/-- In time, a call that has waited long enough gets the next of the validator's answers. -/
theorem step_pausing {l : Lead} {d : Draft} {made wake : Nat} {replies : Nat → Reply}
    (hv : e.validator = some replies)
    (hs : step e s ⟨r, .pausing l d made wake, began⟩ = some (s', ⟨r, p', began'⟩))
    (hx : expires s ⟨r, .pausing l d made wake, began⟩ = false) :
    s'.consulted.length = s.consulted.length + 1 ∧
      ∃ wake', p' = .asking l d made (e.answers s.consulted.length) wake' := by
  simp only [step, hv] at hs
  split at hs
  · cases hs
    exact ⟨by simp, _, by simp only [Setup.answers, hv]; rfl⟩
  · rename_i hw
    obtain ⟨hd, -, -⟩ := await_eq_some hs
    simp [expires, hd, Nat.not_le.mp hw] at hx

/-- A step of the only call, unless its time limit has run out. -/
theorem Transition.alone (ht : Transition e s r p s' p')
    (hs : step e s ⟨r, p, began⟩ = some (s', ⟨r, p', began'⟩))
    (hx : expires s ⟨r, p, began⟩ = false) (h : Alone e s r p) : Alone e s' r p' := by
  cases ht with
  | reject hr => exact (Setup.alone_of_rejected hr).symm
  | resolve hr => exact ⟨hr, h⟩
  | hit hget => cases (h.2.2.2.get?_eq_none _).symm.trans hget
  | miss | begin => exact h
  | @refuse rt =>
    obtain ⟨s₁, henter, -⟩ := h.2.enter rt.pair
    simp [step, henter, go] at hs
  | @enter rt =>
    obtain ⟨s₁, henter, hidle⟩ := h.2.enter rt.pair
    simp only [step, henter] at hs
    cases hs
    exact ⟨h.1, hidle⟩
  | follow hm => simp [h.2.1] at hm
  | lead => exact ⟨h.1, h.2.2⟩
  | receive | lose | leave => exact h.elim
  | find hget => cases (h.2.get?_eq_none _).symm.trans hget
  | fail hd => exact (Setup.alone_of_failed h.1 hd).symm
  | finish hd hv => rw [Alone, Setup.alone_of_draft h.1 hd, Setup.advice_of_none hv]
  | write hd hv => exact ⟨⟨h.1, hd, rfl⟩, by rw [h.2.2]; rfl⟩
  | skip hv =>
    rw [Alone, Setup.alone_of_draft h.1.route h.1.draft, Setup.advice_of_none hv]
  | ask =>
    cases hv : e.validator with
    | none => simp [step, hv, go, conclude] at hs
    | some replies =>
      obtain ⟨hconsults, rfl⟩ := h
      obtain ⟨hcount, wake', heq⟩ := step_pausing hv hs hx
      cases heq
      exact ⟨hconsults, rfl, hcount⟩
  | accept | retry =>
    obtain ⟨hconsults, rfl, hcount⟩ := h
    rw [(step_asking hs hx).2]
    exact alone_consider hconsults hcount
  | lateExecuting hw hd | latePausing hw hd | lateAsking hw hd => simp [expires, hw, hd] at hx
  | record | store | publish | account => exact h

end Call

namespace World

variable {e : Setup} {r : Request} {w : World}

/-- The world of one call that is alone. -/
def Lone (e : Setup) (r : Request) (w : World) : Prop :=
  ∃ p began, w.calls = [⟨r, p, began⟩] ∧ Call.Alone e w.state r p

theorem lone_start (e : Setup) (r : Request) : (start e [r]).Lone e r :=
  ⟨.arrived, none, rfl, rfl, rfl, rfl, rfl⟩

theorem Lone.apply (h : w.Lone e r) {ev : Event} (hx : w.expires ev = false) :
    (w.apply e ev).Lone e r := by
  obtain ⟨p, began, hcalls, halone⟩ := h
  cases ev with
  | wait ms => exact ⟨p, began, hcalls, by cases p <;> exact halone⟩
  | move i =>
    rcases w.move_cases e i with hm | ⟨c, s', p', hc, hs, ht, hm⟩
    · rw [World.apply, hm]
      exact ⟨p, began, hcalls, halone⟩
    · rw [World.apply, hm]
      cases i with
      | succ i => simp [hcalls] at hc
      | zero =>
        have hcall : c = ⟨r, p, began⟩ := by simpa [hcalls] using hc.symm
        subst hcall
        refine ⟨p', some (began.getD w.state.now), by simp [hcalls, Call.go],
          ht.alone hs ?_ halone⟩
        simpa [expires, hcalls] using hx

theorem lone_run {history : List Event}
    (htime : Along (apply e) (fun w ev => w.expires ev = false) (start e [r]) history) :
    ((start e [r]).run e history).Lone e r :=
  History.foldl_invariant (lone_start e r) (fun _ _ h hx => h.apply hx) htime

/-- In time, the outcome of a request that is alone does not depend on when its steps are
taken. -/
theorem outcome_of_lone_run {history : List Event} {o : Outcome}
    (htime : Along (apply e) (fun w ev => w.expires ev = false) (start e [r]) history)
    (ho : ((start e [r]).run e history).outcome? 0 = some o) : o = e.alone r := by
  obtain ⟨p, began, hcalls, halone⟩ := lone_run htime
  obtain ⟨c, hc, hco⟩ := Option.bind_eq_some_iff.mp ho
  have hcall : c = ⟨r, p, began⟩ := by simpa [hcalls] using hc.symm
  subst hcall
  cases Call.phase_of_outcome? hco
  exact halone

/-- A request that is alone can be brought to its end in time. -/
theorem exists_lone_run (e : Setup) (r : Request) :
    ∃ history o, Along (apply e) (fun w ev => w.expires ev = false) (start e [r]) history ∧
      ((start e [r]).run e history).outcome? 0 = some o := by
  obtain ⟨history, htime, hdone⟩ := exists_done e [r] []
  obtain ⟨o, ho⟩ := Option.ne_none_iff_exists'.mp (hdone 0 r rfl)
  exact ⟨history, o, htime, ho⟩

end World

end Engine

/-! ### Time limits and attempts -/

/-- The same request with another time limit and another number of attempts. -/
def Request.withEffort (r : Request) (timeoutMs retryAttempts : Nat) : Request :=
  { r with options := { r.options with timeoutMs, retryAttempts } }

/-- The result without its warnings. -/
def Exchange.silenced (x : Exchange) : Exchange := { x with warnings := [] }

/-- The outcome without the warnings of its result. -/
def silence : Outcome → Outcome
  | .ok x => .ok x.silenced
  | .error (.belowFloor platform accuracy floor x) =>
    .error (.belowFloor platform accuracy floor x.silenced)
  | .error f => .error f

theorem Fingerprint.alike_withEffort (r : Request) (t n : Nat) : Alike (r.withEffort t n) r := by
  constructor <;> rfl

theorem Request.check_withEffort {r : Request} {t : Nat} (ht : r.options.timeoutMs = 0 ↔ t = 0)
    (n : Nat) : (r.withEffort t n).check = r.check := by
  by_cases h : t = 0
  · simp [check, withEffort, h, ht.mpr h]
  · simp [check, withEffort, h, mt ht.mp h]

namespace Engine

open History (Along)

theorem Call.route_withEffort (e : Setup) {r : Request} {t : Nat}
    (ht : r.options.timeoutMs = 0 ↔ t = 0) (n : Nat) :
    route e (r.withEffort t n) = route e r := by
  have hkey := Fingerprint.ofRequest_eq_of_alike (Fingerprint.alike_withEffort r t n)
  simp only [route, Request.check_withEffort ht, hkey]
  rfl

namespace Setup

variable {e : Setup} {r : Request} {rt : Route} {d : Draft} {t n : Nat}

theorem silence_finishWith (e : Setup) (rt : Route) (d : Draft) (ws vs : List Warning) :
    silence (e.finishWith rt d ws) = silence (e.finishWith rt d vs) := by
  simp only [finishWith, finish, Pipeline.finish]
  split <;> rfl

theorem finishWith_inj {ws vs : List Warning} (h : e.finishWith rt d ws = e.finishWith rt d vs) :
    ws = vs := by
  simp only [finishWith, finish, Pipeline.finish] at h
  split at h
  · simpa using h
  · simpa using h

/-- The request gets as far as a draft, for which the validator is asked. -/
def Drafts (e : Setup) (r : Request) : Prop :=
  ∃ rt d, Call.route e r = .ok rt ∧ e.draft rt r = .ok d

/-- If the validator is asked at all, the other number of attempts comes to the same. -/
def IndifferentTo (e : Setup) (retryAttempts : Nat) (r : Request) : Prop :=
  e.Drafts r → Remote.Indifferent e.answers (Remote.attemptsFor r.options.retryAttempts)
    (Remote.attemptsFor retryAttempts)

/-- Only the validator's warnings can tell the outcomes apart. -/
theorem alone_cases (e : Setup) {r : Request} {t : Nat} (ht : r.options.timeoutMs = 0 ↔ t = 0)
    (n : Nat) :
    (∃ rt d, Call.route e r = .ok rt ∧ e.draft rt r = .ok d ∧
      e.alone r = e.finishWith rt d (e.advice rt r) ∧
      e.alone (r.withEffort t n) = e.finishWith rt d (e.advice rt (r.withEffort t n))) ∨
    (¬ e.Drafts r ∧ e.alone (r.withEffort t n) = e.alone r) := by
  have hroute := Call.route_withEffort e ht n
  cases hr : Call.route e r with
  | error f =>
    refine .inr ⟨fun ⟨rt, d, hrt, _⟩ => ?_, ?_⟩
    · cases hr.symm.trans hrt
    · rw [alone_of_rejected hr, alone_of_rejected (hroute.trans hr)]
  | ok rt =>
    -- the work reads neither the time limit nor the number of attempts
    have hsame : e.draft rt (r.withEffort t n) = e.draft rt r := rfl
    cases hd : e.draft rt r with
    | error f =>
      refine .inr ⟨fun ⟨qt, d, hqt, hqd⟩ => ?_, ?_⟩
      · cases hr.symm.trans hqt
        cases hd.symm.trans hqd
      · rw [alone_of_failed hr hd, alone_of_failed (hroute.trans hr) (hsame.trans hd)]
    | ok d =>
      exact .inl ⟨rt, d, rfl, hd, alone_of_draft hr hd,
        alone_of_draft (hroute.trans hr) (hsame.trans hd)⟩

end Setup

namespace World

variable {e : Setup} {r : Request} {t n : Nat} {history history' : List Event} {o o' : Outcome}

/-- Two requests that differ in their time limits and their numbers of attempts, each alone in a
fresh engine and in time: their outcomes are the same up to warnings. They are the same
altogether if both numbers of attempts come to the same for the validator, and, unless the
validator sends the engine's own notice, only then. -/
theorem effort_shows_in_notices_only (ht : r.options.timeoutMs = 0 ↔ t = 0)
    (htime : Along (apply e) (fun w ev => w.expires ev = false) (start e [r]) history)
    (htime' : Along (apply e) (fun w ev => w.expires ev = false) (start e [r.withEffort t n])
      history')
    (ho : ((start e [r]).run e history).outcome? 0 = some o)
    (ho' : ((start e [r.withEffort t n]).run e history').outcome? 0 = some o') :
    silence o = silence o' ∧ (e.IndifferentTo n r → o = o') ∧
      (Remote.Forthright e.answers → o = o' → e.IndifferentTo n r) := by
  rw [outcome_of_lone_run htime ho, outcome_of_lone_run htime' ho']
  rcases e.alone_cases ht n with ⟨rt, d, hr, hd, hone, htwo⟩ | ⟨hnone, hsame⟩
  · rw [hone, htwo]
    refine ⟨e.silence_finishWith rt d _ _, fun h => ?_, fun hreal heq _ => ?_⟩
    · have hadvice : e.advice rt r = e.advice rt (r.withEffort t n) := by
        rw [Setup.advice, Setup.advice, Remote.warnings_consult, Remote.warnings_consult]
        exact Remote.outlook_congr (h ⟨rt, d, hr, hd⟩) _ _
      rw [hadvice]
    · exact Remote.indifferent_of_outlook_eq hreal (Remote.attemptsFor_pos _)
        (Remote.attemptsFor_pos _) (Setup.finishWith_inj heq)
  · rw [hsame]
    exact ⟨rfl, fun _ => rfl, fun _ _ hdrafts => absurd hdrafts hnone⟩

/-! ### A validator that fails once -/

namespace Flaky

/-- The validator refuses its first call and has nothing to say afterwards. -/
def setup : Setup :=
  { validator := some fun k => if k = 0 then { answer := .error "refused" } else {} }

def hasty : Request := ⟨"a=b", "siem", "siem", { retryAttempts := 1 }⟩

def steady : Request := hasty.withEffort 60000 2

def stubborn : Request := steady.withEffort 10000 5

/-- The request is alone, and it ends in time with this outcome. -/
def Ends (r : Request) (o : Outcome) : Prop :=
  ∃ history, Along (apply setup) (fun w ev => w.expires ev = false) (start setup [r]) history ∧
    ((start setup [r]).run setup history).outcome? 0 = some o

theorem exists_ends (r : Request) : ∃ o, Ends r o := by
  obtain ⟨history, o, hrun⟩ := exists_lone_run setup r
  exact ⟨o, history, hrun⟩

theorem drafts : setup.Drafts hasty := by
  have hok : (Call.route setup hasty >>= fun rt => setup.draft rt hasty).isOk = true := by
    decide +kernel
  cases hx : Call.route setup hasty >>= fun rt => setup.draft rt hasty with
  | error f =>
    rw [hx] at hok
    cases hok
  | ok d =>
    obtain ⟨rt, hr, hd⟩ := ok_of_bind hx
    exact ⟨rt, d, hr, hd⟩

theorem forthright : Remote.Forthright setup.answers := by
  intro k platform n m h
  cases k <;> cases h

theorem not_heard_at_first : ¬ Remote.AnswersWithin setup.answers 1 := by
  rintro ⟨k, hk, ws, hok⟩
  obtain rfl : k = 0 := by omega
  cases hok

theorem heard_at_second : Remote.AnswersWithin setup.answers 2 := ⟨1, by decide, [], rfl⟩

/-- Two requests with one fingerprint get different results, each alone. -/
theorem more_attempts_change_result :
    Fingerprint.ofRequest steady = .ofRequest hasty ∧
    ∃ o o', Ends hasty o ∧ Ends steady o' ∧ o ≠ o' := by
  refine ⟨Fingerprint.ofRequest_eq_of_alike (Fingerprint.alike_withEffort _ _ _), ?_⟩
  obtain ⟨o, hends⟩ := exists_ends hasty
  obtain ⟨o', hends'⟩ := exists_ends steady
  refine ⟨o, o', hends, hends', fun heq => ?_⟩
  obtain ⟨history, htime, ho⟩ := hends
  obtain ⟨history', htime', ho'⟩ := hends'
  obtain ⟨rt, d, hr, hd⟩ := drafts
  have hroute : Call.route setup steady = .ok rt :=
    (Call.route_withEffort setup (by decide) 2).trans hr
  have hone := (outcome_of_lone_run htime ho).trans (Setup.alone_of_draft hr hd)
  have htwo := (outcome_of_lone_run htime' ho').trans (Setup.alone_of_draft hroute hd)
  have hadvice := Setup.finishWith_inj (hone.symm.trans (heq.trans htwo))
  exact Remote.outlook_ne_of_lt forthright (by decide) (by decide) not_heard_at_first _ _ hadvice

/-- A third attempt and more make no difference once the second was heard, and a first attempt
that is the last one changes the warnings only. -/
theorem heard_attempts_suffice :
    (∃ o, Ends steady o ∧ Ends stubborn o) ∧
    ∃ o o', Ends hasty o ∧ Ends steady o' ∧ o ≠ o' ∧ silence o = silence o' := by
  obtain ⟨o, history, htime, ho⟩ := exists_ends hasty
  obtain ⟨o', history', htime', ho'⟩ := exists_ends steady
  obtain ⟨o'', history'', htime'', ho''⟩ := exists_ends stubborn
  obtain ⟨-, hsame, -⟩ := effort_shows_in_notices_only (by decide) htime' htime'' ho' ho''
  obtain ⟨hsilent, -, hdiffer⟩ := effort_shows_in_notices_only (by decide) htime htime' ho ho'
  have heq : o' = o'' := hsame fun _ => .inr heard_at_second
  have hne : o ≠ o' := fun h => by
    rcases hdiffer forthright h drafts with hone | hone
    · exact absurd hone (by decide)
    · exact not_heard_at_first hone
  exact ⟨⟨o', ⟨history', htime', ho'⟩, heq ▸ ⟨history'', htime'', ho''⟩⟩, o, o',
    ⟨history, htime, ho⟩, ⟨history', htime', ho'⟩, hne, hsilent⟩

end Flaky

end World

end Engine

end RuleExchange
