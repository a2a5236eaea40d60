import RuleExchange.Proofs.CallTrail
import RuleExchange.Proofs.LoneCall

/-! What a validator can do to a call. The validator is called until it answers or no attempt is
left, with a growing pause before each call but the first, and what comes of it is added to the
warnings of a draft that is already there. So whatever the validator says and whatever other calls
do in between, a call that does its own work and is not late ends as it does without a validator,
with more warnings behind its own. -/

namespace RuleExchange

namespace Remote

variable {platform : String} {attempts : Nat} {policy : Settings.Retry}
  {replies : Nat → Except String (List Warning)}

/-- The replies with these numbers are failures and the `last` one ends the consultation: the
validator answers, or it fails and no attempt is left. -/
inductive Heeds (platform : String) (attempts : Nat) (replies : Nat → Except String (List Warning))
    (failures : List Nat) (last : Nat) : List Warning → Prop where
  | answered {ws} (hfail : ∀ k ∈ failures, ∃ m, replies k = .error m)
      (hleft : failures.length < attempts) (h : replies last = .ok ws) :
      Heeds platform attempts replies failures last ws
  | unanswered {m} (hfail : ∀ k ∈ failures, ∃ m, replies k = .error m)
      (hnone : failures.length + 1 = attempts) (h : replies last = .error m) :
      Heeds platform attempts replies failures last [unavailable platform attempts m]

/-- What follows a reply, when the replies before it were failures. -/
theorem next_cases {failures : List Nat} (hfail : ∀ k ∈ failures, ∃ m, replies k = .error m)
    (hleft : failures.length < attempts) (platform : String) (policy : Settings.Retry)
    (last : Nat) :
    (∃ ws, next platform attempts policy failures.length (replies last) = .done ws ∧
      Heeds platform attempts replies failures last ws) ∨
    (next platform attempts policy failures.length (replies last) =
        .retry (backoff policy failures.length) ∧
      (∀ k ∈ failures ++ [last], ∃ m, replies k = .error m) ∧ failures.length + 1 < attempts) := by
  cases h : replies last with
  | ok ws => exact .inl ⟨ws, rfl, .answered hfail hleft h⟩
  | error m =>
    by_cases hmore : failures.length + 1 < attempts
    · refine .inr ⟨by rw [next, if_pos hmore], ?_, hmore⟩
      simpa [or_imp, forall_and] using ⟨hfail, m, h⟩
    · exact .inl ⟨_, by rw [next, if_neg hmore], .unanswered hfail (by omega) h⟩

/-- A consultation that goes on after some failures. -/
theorem consultFrom_eq {made : Nat} (hmade : made < attempts)
    (hfail : ∀ k ∈ List.range made, ∃ m, replies k = .error m) (platform : String)
    (policy : Settings.Retry) {left : Nat} (hleft : made + left + 1 = attempts) :
    ∃ k ws, made ≤ k ∧ Heeds platform attempts replies (List.range k) k ws ∧
      consultFrom platform attempts policy replies left made =
        ⟨k + 1, (List.range' made (k - made)).map (backoff policy), ws⟩ := by
  induction left generalizing made with
  | zero =>
    have hcases := next_cases hfail (by simpa using hmade) platform policy made
    rw [List.length_range] at hcases
    rcases hcases with ⟨ws, hnext, hheeds⟩ | ⟨-, -, hmore⟩
    · exact ⟨made, ws, Nat.le_refl _, hheeds, by simp [consultFrom, hnext]⟩
    · omega
  | succ left ih =>
    have hcases := next_cases hfail (by simpa using hmade) platform policy made
    rw [List.length_range, ← List.range_succ] at hcases
    rcases hcases with ⟨ws, hnext, hheeds⟩ | ⟨hnext, hfail', hmore⟩
    · exact ⟨made, ws, Nat.le_refl _, hheeds, by simp [consultFrom, hnext]⟩
    · obtain ⟨k, ws, hk, hheeds, heq⟩ := ih hmore hfail' (by omega)
      have hlength : k - made = k - (made + 1) + 1 := by omega
      refine ⟨k, ws, by omega, hheeds, ?_⟩
      rw [hlength, List.range'_succ]
      simp [consultFrom, hnext, heq]

/-- The validator is called until it answers, and as often as attempts are made if it never does;
between the calls the pauses grow from the first one. -/
theorem exists_consult_eq (platform : String) (n : Nat) (policy : Settings.Retry)
    (replies : Nat → Except String (List Warning)) :
    ∃ k ws, Heeds platform (attemptsFor n) replies (List.range k) k ws ∧
      consult platform n policy replies = ⟨k + 1, (List.range k).map (backoff policy), ws⟩ := by
  have hpos := attemptsFor_pos n
  have hleft : 0 + (attemptsFor n - 1) + 1 = attemptsFor n := by omega
  have hnone : ∀ k ∈ List.range 0, ∃ m, replies k = .error m := by simp
  obtain ⟨k, ws, -, hheeds, heq⟩ := consultFrom_eq hpos hnone platform policy hleft
  refine ⟨k, ws, hheeds, ?_⟩
  rw [consult, heq, List.range_eq_range', Nat.sub_zero]

end Remote

/-! ### Added warnings -/

def Exchange.advised (x : Exchange) (ws : List Warning) : Exchange :=
  { x with warnings := x.warnings ++ ws }

/-- The same outcome with warnings behind those of its result. -/
def advise (ws : List Warning) : Outcome → Outcome
  | .ok x => .ok (x.advised ws)
  | .error (.belowFloor platform accuracy floor x) =>
    .error (.belowFloor platform accuracy floor (x.advised ws))
  | .error f => .error f

namespace Engine

theorem Setup.finishWith_eq_advise (e : Setup) (rt : Route) (d : Draft) (ws : List Warning) :
    e.finishWith rt d ws = advise ws (e.finishWith rt d []) := by
  simp only [finishWith, finish, Pipeline.finish, List.append_nil]
  split <;> rfl

/-- The same engine without a validator. -/
def Setup.unadvised (e : Setup) : Setup := { e with validator := none }

/-! ### What a call does on its own -/

/-- What a call does to get an outcome of its own. -/
inductive Deed where
  /-- Reads, checks and writes the rule. -/
  | work
  /-- Gets the reply of this number, counted over the life of the engine. -/
  | call (number : Nat)
  | pause (ms : Nat)
  deriving DecidableEq, Repr

/-- What a step does; a worker that is not ready has not done the work. -/
def Phase.deed? (s : State) : Phase → Phase → Option Deed
  | .executing _ ready, .concluded _ _ => if ready ≤ s.now then some .work else none
  | .executing _ _, .pausing _ _ _ _ => some .work
  | .pausing _ _ _ _, .asking _ _ _ _ _ => some (.call s.consulted.length)
  | .asking _ _ _ _ _, .pausing _ _ _ wake => some (.pause (wake - s.now))
  | _, _ => none

theorem Phase.deed?_self (s : State) (p : Phase) : p.deed? s p = none := by
  cases p <;> rfl

/-- The calls with these numbers, each with the pause that follows it. -/
def setbacks (policy : Settings.Retry) (numbers : List Nat) : List Deed :=
  numbers.zipIdx.flatMap fun (number, k) => [.call number, .pause (Remote.backoff policy k)]

theorem setbacks_concat (policy : Settings.Retry) (numbers : List Nat) (number : Nat) :
    setbacks policy (numbers ++ [number]) =
      setbacks policy numbers ++ [.call number, .pause (Remote.backoff policy numbers.length)] := by
  simp [setbacks, List.zipIdx_append]

namespace Call

variable {e : Setup} {s s' : State} {r : Request} {p p' : Phase} {began began' : Option Nat}
  {done : List Deed}

/-- The journal of a call that has worked and ends with an outcome. -/
inductive Worked (e : Setup) (r : Request) : List Deed → Outcome → Prop where
  | failed {rt f} (hr : route e r = .ok rt) (hd : e.draft rt r = .error f) :
      Worked e r [.work] (.error f)
  | unadvised {rt d} (hr : route e r = .ok rt) (hd : e.draft rt r = .ok d)
      (hv : e.validator = none) : Worked e r [.work] (e.finishWith rt d [])
  | advised {rt d failures last ws} (hr : route e r = .ok rt) (hd : e.draft rt r = .ok d)
      (hv : e.validator ≠ none)
      (h : Remote.Heeds rt.target.id (Remote.attemptsFor r.options.retryAttempts) e.answers failures
        last ws) :
      Worked e r (.work :: (setbacks (e.retryPolicy rt.target) failures ++ [.call last]))
        (e.finishWith rt d ws)
  | late {before : List Deed} (hv : e.validator ≠ none) :
      Worked e r before (.error (timeoutFailure r.options))

/-- A draft for which the validator has failed with the replies of these numbers. -/
structure Seeks (e : Setup) (r : Request) (l : Lead) (d : Draft) (made : Nat)
    (failures : List Nat) : Prop where
  route : route e r = .ok l.route
  draft : e.draft l.route r = .ok d
  validator : e.validator ≠ none
  count : failures.length = made
  left : made < Remote.attemptsFor r.options.retryAttempts
  fail : ∀ k ∈ failures, ∃ m, e.answers k = .error m

/-- The journal of a call in each of its phases. -/
def Bears (e : Setup) (r : Request) (done : List Deed) : Phase → Prop
  | .queued | .arrived | .following _ _ => done = []
  | .resolved rt | .missed rt | .entered rt _ => done = [] ∧ route e r = .ok rt
  | .leading l | .executing l _ => done = [] ∧ route e r = .ok l.route
  | .pausing l d made _ => ∃ failures, Seeks e r l d made failures ∧
      done = .work :: setbacks (e.retryPolicy l.route.target) failures
  | .asking l d made answer _ => ∃ failures last, Seeks e r l d made failures ∧
      answer = e.answers last ∧
      done = .work :: (setbacks (e.retryPolicy l.route.target) failures ++ [.call last])
  | .concluded _ o | .recorded _ o | .publishing _ o _ | .answered o | .finished o =>
    done = [] ∨ Worked e r done o

theorem step_ask_answer {l : Lead} {d : Draft} {made wake wake' : Nat}
    {answer : Except String (List Warning)}
    (hs : step e s ⟨r, .pausing l d made wake, began⟩ =
      some (s', ⟨r, .asking l d made answer wake', began'⟩)) :
    answer = e.answers s.consulted.length := by
  cases hv : e.validator with
  | none => simp [step, hv, go, conclude] at hs
  | some replies =>
    simp only [step, hv] at hs
    split at hs
    · cases hs
      simp only [Setup.answers, hv]
    · simp [await, go] at hs

/-- A call that waits for a reply considers it or is late. -/
theorem step_asking_cases {l : Lead} {d : Draft} {made wake : Nat}
    {answer : Except String (List Warning)}
    (hs : step e s ⟨r, .asking l d made answer wake, began⟩ = some (s', ⟨r, p', began'⟩)) :
    p' = consider e s r l d made answer ∨
      p' = .concluded l (.error (timeoutFailure r.options)) := by
  simp only [step] at hs
  split at hs
  · cases hs
    exact .inl rfl
  · obtain ⟨-, -, hc⟩ := await_eq_some hs
    exact .inr (congrArg Call.phase hc)

/-- After a reply the call is done with the validator, or it pauses before its next call. -/
theorem bears_consider {l : Lead} {d : Draft} {made wake : Nat} {failures : List Nat} {last : Nat}
    (h : Seeks e r l d made failures) {answer : Except String (List Warning)}
    (hanswer : answer = e.answers last) (hp : p' = consider e s r l d made answer) :
    Bears e r
      (.work :: (setbacks (e.retryPolicy l.route.target) failures ++ [.call last]) ++
        ((Phase.asking l d made answer wake).deed? s p').toList) p' := by
  have hcases := Remote.next_cases h.fail (h.count ▸ h.left) l.route.target.id
    (e.retryPolicy l.route.target) last
  rw [h.count, ← hanswer] at hcases
  subst hp
  rcases hcases with ⟨ws, hnext, hheeds⟩ | ⟨hnext, hfail, hmore⟩
  · have hphase : consider e s r l d made answer = .concluded l (e.finishWith l.route d ws) := by
      simp only [consider, hnext]
      rfl
    rw [hphase]
    refine .inr ?_
    simpa [Phase.deed?] using .advised h.route h.draft h.validator hheeds
  · have hphase : consider e s r l d made answer = .pausing l d (made + 1)
        (s.now + Remote.backoff (e.retryPolicy l.route.target) made) := by
      simp only [consider, hnext]
    rw [hphase]
    refine ⟨failures ++ [last],
      ⟨h.route, h.draft, h.validator, by simp [h.count], hmore, hfail⟩, ?_⟩
    simp [Phase.deed?, setbacks_concat, h.count]

/-- Without a validator the outcome is that of the work alone. -/
theorem Worked.eq_work {o : Outcome} (h : Worked e.unadvised r done o) :
    ∃ rt, route e r = .ok rt ∧ o = e.work rt r := by
  cases h with
  | @failed rt f hr hd => exact ⟨rt, hr, (Setup.work_of_error hd).symm⟩
  | @unadvised rt d hr hd => exact ⟨rt, hr, (Setup.work_of_ok hd).symm⟩
  | advised _ _ hv | late hv => exact absurd rfl hv

/-- A worker has done the work or has not been ready. -/
theorem bears_concluded {l : Lead} {ready : Nat} {o : Outcome} (h : Worked e r [.work] o) :
    Bears e r ([] ++ ((Phase.executing l ready).deed? s (.concluded l o)).toList)
      (.concluded l o) := by
  simp only [Phase.deed?]
  split
  · exact .inr h
  · exact .inl rfl

theorem Transition.bears (ht : Transition e s r p s' p')
    (hs : step e s ⟨r, p, began⟩ = some (s', ⟨r, p', began'⟩)) (h : Bears e r done p) :
    Bears e r (done ++ (p.deed? s p').toList) p' := by
  cases ht with
  | fail hd =>
    obtain ⟨rfl, hr⟩ := h
    exact bears_concluded (.failed hr hd)
  | finish hd hv =>
    obtain ⟨rfl, hr⟩ := h
    exact bears_concluded (.unadvised hr hd hv)
  | lateExecuting hw =>
    obtain ⟨rfl, -⟩ := h
    refine .inl ?_
    simp [Phase.deed?, Nat.not_le.mpr hw]
  | write hd hv =>
    obtain ⟨rfl, hr⟩ := h
    exact ⟨[], ⟨hr, hd, hv, rfl, Remote.attemptsFor_pos _, by simp⟩, rfl⟩
  | skip hv =>
    obtain ⟨failures, hseeks, -⟩ := h
    exact absurd hv hseeks.validator
  | ask =>
    obtain ⟨failures, hseeks, rfl⟩ := h
    exact ⟨failures, _, hseeks, step_ask_answer hs, by simp [Phase.deed?]⟩
  | latePausing =>
    obtain ⟨failures, hseeks, -⟩ := h
    exact .inr (.late hseeks.validator)
  | accept | retry | lateAsking =>
    obtain ⟨failures, last, hseeks, hanswer, rfl⟩ := h
    rcases step_asking_cases hs with hp | hp
    · exact bears_consider hseeks hanswer hp
    · rw [hp]
      exact .inr (.late hseeks.validator)
  | record | store | publish | account => exact (List.append_nil done).symm ▸ h
  | reject =>
    cases h
    exact .inl rfl
  | resolve hr =>
    cases h
    exact ⟨rfl, hr⟩
  | miss | enter | lead | begin =>
    obtain ⟨rfl, hr⟩ := h
    exact ⟨rfl, hr⟩
  | hit | refuse | find =>
    obtain ⟨rfl, -⟩ := h
    exact .inl rfl
  | follow =>
    obtain ⟨rfl, -⟩ := h
    rfl
  | receive | lose | leave =>
    cases h
    exact .inl rfl

end Call

namespace World

open Call

variable {e : Setup} {w : World}

/-- What one call does in an event. -/
def deeds (e : Setup) (i : Nat) (w : World) (ev : Event) : List Deed :=
  match w.calls[i]?, (w.apply e ev).calls[i]? with
  | some c, some c' => (c.phase.deed? w.state c'.phase).toList
  | _, _ => []

/-- What one call does in the course of a history. -/
def journal (e : Setup) (rs : List Request) (history : List Event) (i : Nat) : List Deed :=
  History.seen (apply e) (deeds e i) (start e rs) history

/-- The call is for this request, and this is its journal so far. -/
def BearsAt (e : Setup) (i : Nat) (r : Request) (w : World) (done : List Deed) : Prop :=
  ∃ p began, w.calls[i]? = some ⟨r, p, began⟩ ∧ Bears e r done p

variable {i : Nat} {r : Request} {done : List Deed}

theorem BearsAt.apply (h : BearsAt e i r w done) (ev : Event) :
    BearsAt e i r (w.apply e ev) (done ++ deeds e i w ev) := by
  obtain ⟨p, began, hc, hbears⟩ := h
  have hstays (hsame : (w.apply e ev).calls[i]? = some ⟨r, p, began⟩) :
      BearsAt e i r (w.apply e ev) (done ++ deeds e i w ev) := by
    refine ⟨p, began, hsame, ?_⟩
    simpa [deeds, hc, hsame, Phase.deed?_self] using hbears
  by_cases hev : ev = .move i
  · subst hev
    rcases w.move_cases e i with hm | ⟨c, s', p', hc', hs, ht, hm⟩
    · exact hstays (by rw [World.apply, hm, hc])
    · cases hc.symm.trans hc'
      have hmoved : (w.apply e (.move i)).calls[i]? =
          some ⟨r, p', some (began.getD w.state.now)⟩ := by
        rw [World.apply, hm, getElem?_moved hc, if_pos rfl]
        rfl
      refine ⟨p', _, hmoved, ?_⟩
      simpa [deeds, hc, hmoved] using ht.bears hs hbears
  · exact hstays ((getElem?_apply_of_ne hev).trans hc)

/-- A call that ends after work of its own has one of the journals of such calls. -/
theorem worked_of_run {rs : List Request} {history : List Event} {o : Outcome}
    (hr : rs[i]? = some r) (ho : ((start e rs).run e history).outcome? i = some o)
    (hwork : .work ∈ journal e rs history i) : Worked e r (journal e rs history i) o := by
  have hstart : BearsAt e i r (start e rs) [] := ⟨.arrived, none, by simp [start, hr], rfl⟩
  obtain ⟨p, began, hc, hbears⟩ :=
    History.seen_invariant hstart (fun w ev done h => BearsAt.apply h ev) history
  obtain ⟨c, hc', hco⟩ := Option.bind_eq_some_iff.mp ho
  cases hc.symm.trans hc'
  cases phase_of_outcome? hco
  rcases hbears with hnone | hworked
  · rw [List.nil_append] at hnone
    rw [journal, hnone] at hwork
    cases hwork
  · exact hworked

/-- Two engines that differ in the validator only, and one request that a call works on in each of
them, whatever else goes on there. If the call with the validator is not late, the validator was
asked until it answered or failed as often as the request allows, with pauses that grow from the
first one, and the outcomes are the same but for what came of it, which stands behind the other
warnings. -/
theorem validator_only_adds_warnings :
    (∀ platform n policy replies, ∃ k ws,
      Remote.Heeds platform (max n 1) replies (List.range k) k ws ∧
      Remote.consult platform n policy replies =
        ⟨k + 1, (List.range k).map (Remote.backoff policy), ws⟩) ∧
    ∀ {e : Setup} {r : Request} {rs rs' : List Request} {history history' : List Event}
      {i i' : Nat} {o o' : Outcome}, e.validator ≠ none →
      rs[i]? = some r → ((start e rs).run e history).outcome? i = some o →
      .work ∈ journal e rs history i → o ≠ .error (timeoutFailure r.options) →
      rs'[i']? = some r →
      ((start e.unadvised rs').run e.unadvised history').outcome? i' = some o' →
      .work ∈ journal e.unadvised rs' history' i' →
      ∃ rt, route e r = .ok rt ∧
        ((∃ f, e.draft rt r = .error f ∧ o = .error f ∧ o' = .error f ∧
            journal e rs history i = [.work]) ∨
          ∃ failures last ws,
            Remote.Heeds rt.target.id (max r.options.retryAttempts 1) e.answers failures last ws ∧
            journal e rs history i =
              .work :: (setbacks (e.retryPolicy rt.target) failures ++ [.call last]) ∧
            o = advise ws o') := by
  refine ⟨fun platform n policy replies => Remote.exists_consult_eq platform n policy replies, ?_⟩
  intro e r rs rs' history history' i i' o o' hv hr ho hwork hlate hr' ho' hwork'
  obtain ⟨rt, hroute, hown⟩ := (worked_of_run hr' ho' hwork').eq_work
  have hworked := worked_of_run hr ho hwork
  generalize journal e rs history i = done at hworked ⊢
  cases hworked with
  | failed hrt hd =>
    cases hroute.symm.trans hrt
    rw [Setup.work_of_error hd] at hown
    exact ⟨rt, hroute, .inl ⟨_, hd, rfl, hown, rfl⟩⟩
  | unadvised hrt hd hnone => exact absurd hnone hv
  | advised hrt hd _ hheeds =>
    cases hroute.symm.trans hrt
    rw [Setup.work_of_ok hd] at hown
    refine ⟨rt, hroute, .inr ⟨_, _, _, hheeds, rfl, ?_⟩⟩
    rw [hown, ← Setup.finishWith_eq_advise]
  | late => exact absurd rfl hlate

/-- The validator fails twice and is heard at the third try, after two pauses. -/
theorem heard_at_third_try :
    let warning : Warning := .major "REVIEW" "looks broad"
    let e : Setup :=
      { validator := some fun k =>
          { answer := if k < 2 then .error "refused" else .ok [warning] } }
    let r : Request := ⟨"a=b", "siem", "siem", { retryAttempts := 3 }⟩
    let history : List Event := List.replicate 8 (.move 0) ++ .wait 100 ::
      .move 0 :: .move 0 :: .wait 200 :: List.replicate 6 (.move 0)
    let history' : List Event := List.replicate 11 (.move 0)
    journal e [r] history 0 = [.work, .call 0, .pause 100, .call 1, .pause 200, .call 2] ∧
      ∃ o o', ((start e [r]).run e history).outcome? 0 = some o ∧
        ((start e.unadvised [r]).run e.unadvised history').outcome? 0 = some o' ∧
        o.isOk = true ∧ o = advise [warning] o' := by
  intro warning e r history history'
  have hruns :
      journal e [r] history 0 = [.work, .call 0, .pause 100, .call 1, .pause 200, .call 2] ∧
      journal e.unadvised [r] history' 0 = [.work] ∧
      (((start e [r]).run e history).outcome? 0).any (·.isOk) = true ∧
      (((start e.unadvised [r]).run e.unadvised history').outcome? 0).any (·.isOk) = true := by
    decide +kernel
  obtain ⟨hjournal, hjournal', hdone, hdone'⟩ := hruns
  obtain ⟨o, ho, hok⟩ := (Option.any_eq_true _ _).mp hdone
  obtain ⟨o', ho', -⟩ := (Option.any_eq_true _ _).mp hdone'
  refine ⟨hjournal, o, o', ho, ho', hok, ?_⟩
  have hlate : o ≠ .error (timeoutFailure r.options) := by
    rintro rfl
    cases hok
  obtain ⟨rt, -, hcases⟩ := validator_only_adds_warnings.2 (e := e) (r := r) nofun rfl ho
    (by simp [hjournal]) hlate rfl ho' (by simp [hjournal'])
  rcases hcases with ⟨f, -, rfl, -⟩ | ⟨failures, last, ws, hheeds, hsame, heq⟩
  · cases hok
  · have hsplit : [Deed.work, .call 0, .pause 100, .call 1, .pause 200] ++ [.call 2] =
        (.work :: setbacks (e.retryPolicy rt.target) failures) ++ [.call last] :=
      hjournal.symm.trans hsame
    cases (List.append_inj' hsplit rfl).2
    cases hheeds with
    | answered _ _ h =>
      cases h
      exact heq
    | unanswered _ _ h => cases h

end World

end Engine

end RuleExchange
