import RuleExchange.Proofs.BatchPlaces
import RuleExchange.Proofs.CallTrail
import RuleExchange.Proofs.LoneCall
import RuleExchange.Proofs.Transparency
import RuleExchange.Proofs.TripRule

/-! What the requests of a batch can do to each other. Without a validator and in time, an item
has the outcome that its request gets alone in a fresh engine, with one exception: the circuit
of its pair may refuse it. A circuit that was never open lets everybody in, and it opens only
when enough calls of the pair have reported and too large a share of them has failed. The
calls that have opened the circuit of a refused item are other calls of the same batch, and
those of them that have failed fail alone as well. -/

namespace RuleExchange

/-! ### Circuits that have not opened yet -/

namespace Circuit

/-- A closed circuit stays closed and keeps its outcomes. -/
def StaysClosed (c c' : Circuit) : Prop :=
  c.state = .closed → c'.state = .closed ∧ c'.outcomes = c.outcomes

theorem staysClosed_enter (c : Circuit) (b : Settings.Breaker) (now : Nat) :
    c.StaysClosed (c.enter b now).1 := by
  intro h
  rw [enter_closed h]
  exact ⟨h, rfl⟩

theorem staysClosed_freeTrial (c : Circuit) : c.StaysClosed c.freeTrial := fun h => ⟨h, rfl⟩

/-- A report to a closed circuit: it keeps the last outcomes, or they have opened it. -/
theorem record_closed {c : Circuit} (h : c.state = .closed) (b : Settings.Breaker) (now : Nat)
    (trial success : Bool) :
    c.StaysClosed (c.record b now trial success) ∨
    ∃ n,
      let flags := ((c.outcomes.map (·.2)) ++ [success]).drop n
      ((c.record b now trial success).state = .closed ∧
        (c.record b now trial success).outcomes.map (·.2) = flags) ∨
      (b.minRequests ≤ flags.length ∧
        b.failureRatio ≤ Float.ofNat (flags.countP (!·)) / Float.ofNat flags.length) := by
  cases trial with
  | true =>
    rw [record_trial, recordTrial_of_ne_halfOpen (by simp [h])]
    exact .inl (staysClosed_freeTrial c)
  | false =>
    rw [record_call]
    let kept := recent (windowMs b) now (c.outcomes ++ [(now, success)])
    obtain ⟨dropped, hdropped⟩ : kept <:+ c.outcomes ++ [(now, success)] := List.dropWhile_suffix _
    have hflags : ((c.outcomes.map (·.2)) ++ [success]).drop dropped.length = kept.map (·.2) := by
      have hmap := congrArg (List.map (·.2)) hdropped
      rw [List.map_append, List.map_append] at hmap
      simp only [List.map_cons, List.map_nil] at hmap
      rw [← hmap, List.drop_left' (by simp)]
    obtain ⟨hopens, hkeeps⟩ := recordCall_closed h b now success
    refine .inr ⟨dropped.length, ?_⟩
    rw [hflags]
    by_cases hopen : (c.recordCall b now success).state = .opened
    · obtain ⟨henough, hshare⟩ := hopens.mp hopen
      refine .inr ⟨by simpa using henough, ?_⟩
      have hfailures : (kept.map (·.2)).countP (!·) = failures kept := by
        rw [List.countP_map, failures, List.countP_eq_length_filter]
        rfl
      rw [hfailures, List.length_map]
      exact hshare
    · rw [hkeeps hopen]
      exact .inl ⟨h, rfl⟩

end Circuit

namespace Circuits

/-- The circuit of a pair; one that was never used is closed. -/
def circuit (cs : Circuits) (pair : String) : Circuit := (cs.get? pair).getD {}

variable (cs : Circuits) (now : Nat) (pair : String)

theorem staysClosed_enter (other : String) :
    (cs.circuit pair).StaysClosed ((cs.enter now other).1.circuit pair) := by
  by_cases hp : pair = other
  · subst hp
    simpa [circuit, enter] using Circuit.staysClosed_enter _ _ _
  · simp [circuit, enter, get?_put_of_ne _ hp, Circuit.StaysClosed]

theorem staysClosed_release (p : Permit) :
    (cs.circuit pair).StaysClosed ((cs.release p).circuit pair) := by
  unfold release circuit
  split
  · rw [get?_modify]
    split
    · rename_i hp
      rw [hp]
      cases cs.get? p.pair with
      | none => exact fun h => ⟨h, rfl⟩
      | some c => exact Circuit.staysClosed_freeTrial c
    · exact fun h => ⟨h, rfl⟩
  · exact fun h => ⟨h, rfl⟩

theorem circuit_record_cases (p : Permit) (success : Bool) :
    (cs.record now p success).circuit pair = cs.circuit pair ∨
    pair = p.pair ∧ (cs.record now p success).circuit pair =
      (cs.circuit pair).record cs.settings now p.trial success := by
  unfold record circuit
  rw [get?_modify]
  split
  · rename_i hp
    subst hp
    cases cs.get? p.pair with
    | none => exact .inl rfl
    | some c => exact .inr ⟨rfl, rfl⟩
  · exact .inl rfl

theorem settings_record (p : Permit) (success : Bool) :
    (cs.record now p success).settings = cs.settings :=
  settings_modify _ _ _

theorem settings_release (p : Permit) : (cs.release p).settings = cs.settings := by
  unfold release
  split
  · exact settings_modify _ _ _
  · rfl

/-- Who is refused has found a circuit that is not closed. -/
theorem ne_closed_of_refused {cs' : Circuits} {f : Failure}
    (h : cs.enter now pair = (cs', .error f)) : (cs.circuit pair).state ≠ .closed := by
  intro hclosed
  have hanswer := congrArg Prod.snd h
  simp [enter, show ((cs.get? pair).getD {}).enter cs.settings now = (cs.circuit pair, .ok false)
    from Circuit.enter_closed hclosed _ _] at hanswer

end Circuits

namespace Engine

open History (Along)

/-! ### Requests on their own -/

theorem Setup.alone_eq_work {e : Setup} {r : Request} {rt : Route} (hv : e.validator = none)
    (hr : Call.route e r = .ok rt) : e.alone r = e.work rt r := by
  cases hd : e.draft rt r with
  | error f => rw [alone_of_failed hr hd, work_of_error hd]
  | ok d => rw [alone_of_draft hr hd, work_of_ok hd, advice_of_none hv]

/-- Whether a request of the list goes well alone. -/
def Setup.succeeds (e : Setup) (rs : List Request) (i : Nat) : Bool :=
  (rs[i]?).any fun r => (e.alone r).isOk

/-- The request is accepted, and its circuit is that of the pair. -/
def Setup.Concerns (e : Setup) (rs : List Request) (pair : String) (i : Nat) : Prop :=
  ∃ r rt, rs[i]? = some r ∧ Call.route e r = .ok rt ∧ rt.pair = pair

/-- Enough requests of the pair, and too large a share of them fails, even alone. -/
structure Setup.Overloads (e : Setup) (rs : List Request) (pair : String) (is : List Nat) :
    Prop where
  distinct : is.Nodup
  concern : ∀ i ∈ is, e.Concerns rs pair i
  enough : e.settings.engine.breaker.minRequests ≤ is.length
  share : e.settings.engine.breaker.failureRatio ≤
    Float.ofNat (is.countP fun i => !e.succeeds rs i) / Float.ofNat is.length

/-- The outcome is the one that the request gets alone, or its circuit has refused it because
others have overloaded it. -/
def Setup.Explains (e : Setup) (rs : List Request) (i : Nat) (r : Request) (o : Outcome) : Prop :=
  o = e.alone r ∨
    ∃ rt ms is, Call.route e r = .ok rt ∧ o = .error (.circuitOpen rt.pair ms) ∧ i ∉ is ∧
      e.Overloads rs rt.pair is

/-! ### Calls that have reported -/

/-- The outcome is decided, and it was reported before or never will be. -/
def Phase.isSettled : Phase → Bool
  | .recorded _ _ | .publishing _ _ _ | .answered _ | .finished _ => true
  | _ => false

namespace Call

variable {e : Setup} {s s' : State} {r : Request} {p p' : Phase} {began began' : Option Nat}

theorem Transition.isSettled (ht : Transition e s r p s' p') (h : p.isSettled = true) :
    p'.isSettled = true := by
  cases ht <;> first | rfl | cases h

/-- What is true of a call of a batch in each of its phases. -/
def Fits (e : Setup) (rs : List Request) (i : Nat) (r : Request) : Phase → Prop
  | .queued | .arrived => True
  | .resolved rt | .missed rt => route e r = .ok rt
  | .entered rt permit => route e r = .ok rt ∧ permit.pair = rt.pair
  | .following _ _ => ∃ rt, route e r = .ok rt
  | .leading l | .executing l _ | .pausing l _ _ _ | .asking l _ _ _ _ =>
    route e r = .ok l.route ∧ l.permit.pair = l.route.pair
  | .concluded l o | .recorded l o | .publishing l o _ =>
    (route e r = .ok l.route ∧ l.permit.pair = l.route.pair) ∧ o = e.alone r
  | .answered o | .finished o => e.Explains rs i r o

/-- A step of a call of a batch, if a refusal can be explained. -/
theorem Transition.fits {rs : List Request} {i : Nat} (ht : Transition e s r p s' p')
    (hs : step e s ⟨r, p, began⟩ = some (s', ⟨r, p', began'⟩))
    (hx : expires s ⟨r, p, began⟩ = false)
    (hv : e.validator = none) (hr : r ∈ rs) (hf : s.flights.WellFormed)
    (hcache : ∀ k x, (k, x) ∈ s.cache.entries → OwnWork e rs k (.ok x))
    (hst : Stands e (OwnWork e rs) False s.flights r p)
    (hrefuse : ∀ rt, p = .missed rt → (s.circuits.circuit rt.pair).state ≠ .closed →
      ∃ is, i ∉ is ∧ e.Overloads rs rt.pair is)
    (h : Fits e rs i r p) : Fits e rs i r p' := by
  have hown {rt : Route} {k : Fingerprint} {o : Outcome} (hrt : route e r = .ok rt)
      (hk : rt.key = k) (ho : OwnWork e rs k o) : o = e.alone r :=
    (ho r hr rt hrt hk).trans (Setup.alone_eq_work hv hrt).symm
  cases ht with
  | reject hreject => exact .inl (Setup.alone_of_rejected hreject).symm
  | resolve hrt => exact hrt
  | hit hget => exact .inl (hown h rfl (hcache _ _ (Cache.mem_of_get? hget)))
  | miss => exact h
  | @refuse rt ms =>
    obtain ⟨cs, answer, henter, -, hphase⟩ := step_missed_cases hs
    cases answer with
    | ok permit => cases hphase
    | error f =>
      have hopen := Circuits.ne_closed_of_refused _ _ _ henter
      obtain ⟨is, hi, hover⟩ := hrefuse rt rfl hopen
      exact .inr ⟨rt, ms, is, h, rfl, hi, hover⟩
  | enter =>
    obtain ⟨cs, answer, henter, -, hphase⟩ := step_missed_cases hs
    cases answer with
    | error f => cases hphase
    | ok permit =>
      cases hphase
      exact ⟨h, Circuits.pair_of_enter henter⟩
  | follow => exact ⟨_, h.1⟩
  | lead => exact h
  | receive ho =>
    obtain ⟨rt, hrt⟩ := h
    exact .inl (hown hrt (key_of_route hrt) (hst.received hf ho))
  | lose ho => exact absurd ho (hst.not_lost hf)
  | leave ho hd => simp [expires, ho, hd] at hx
  | find hget => exact ⟨h, hown h.1 rfl (hcache _ _ (Cache.mem_of_get? hget))⟩
  | begin | write | ask | retry | record | store => exact h
  | fail hd => exact ⟨h, (Setup.alone_of_failed h.1 hd).symm⟩
  | finish hd =>
    exact ⟨h, ((Setup.work_of_ok hd).symm.trans (Setup.alone_eq_work hv h.1).symm)⟩
  | lateExecuting hw hd => simp [expires, hw, hd] at hx
  | skip | latePausing | accept | lateAsking => exact absurd hv hst.2.2
  | publish => exact .inl h.2
  | account => exact h

/-- Only the report of a leader counts with the circuits. -/
theorem Transition.circuits_cases (ht : Transition e s r p s' p')
    (hs : step e s ⟨r, p, began⟩ = some (s', ⟨r, p', began'⟩)) :
    (∃ l o, p = .concluded l o ∧ p' = .recorded l o ∧
      s'.circuits = s.circuits.record s.now l.permit o.isOk) ∨ Touches s false s'.circuits := by
  have htouches := ht.touches hs
  cases ht with
  | record =>
    cases hs
    exact .inl ⟨_, _, rfl, rfl, State.circuits_setCircuits _ _ _⟩
  | _ => exact .inr htouches

theorem Touches.staysClosed {cs : Circuits} (h : Touches s false cs) (pair : String) :
    (s.circuits.circuit pair).StaysClosed (cs.circuit pair) := by
  cases h with
  | enter other => exact s.circuits.staysClosed_enter s.now pair other
  | release permit => exact s.circuits.staysClosed_release pair permit
  | nothing => exact fun hclosed => ⟨hclosed, rfl⟩

theorem Touches.settings {reports : Bool} {cs : Circuits} (h : Touches s reports cs) :
    cs.settings = s.circuits.settings := by
  cases h with
  | record permit success => exact s.circuits.settings_record s.now permit success
  | enter pair => rfl
  | release permit => exact s.circuits.settings_release permit
  | nothing => rfl

end Call

namespace World

open Call

variable {e : Setup} {rs : List Request} {w : World}

/-- Different settled calls of the pair. -/
structure Counted (e : Setup) (rs : List Request) (pair : String) (w : World) (is : List Nat) :
    Prop where
  distinct : is.Nodup
  settled : ∀ i ∈ is, ∃ c, w.calls[i]? = some c ∧ c.phase.isSettled = true
  concern : ∀ i ∈ is, e.Concerns rs pair i

/-- The circuit of the pair has not been open and holds the outcomes of settled calls, or settled
calls have overloaded it. -/
def Watched (e : Setup) (rs : List Request) (w : World) (pair : String) : Prop :=
  ∃ is, w.Counted e rs pair is ∧
    ((w.state.circuits.circuit pair).state = .closed ∧
        (w.state.circuits.circuit pair).outcomes.map (·.2) = is.map (e.succeeds rs) ∨
      e.Overloads rs pair is)

theorem settled_apply {i : Nat} {c : Call} (hc : w.calls[i]? = some c)
    (h : c.phase.isSettled = true) (ev : Event) :
    ∃ c', (w.apply e ev).calls[i]? = some c' ∧ c'.phase.isSettled = true := by
  by_cases hev : ev = .move i
  · subst hev
    rcases w.move_cases e i with hm | ⟨d, s', p, hd, -, ht, hm⟩
    · rw [apply, hm]
      exact ⟨c, hc, h⟩
    · cases hc.symm.trans hd
      refine ⟨c.go w.state.now p, ?_, ht.isSettled h⟩
      rw [apply, hm, getElem?_moved hc, if_pos rfl]
  · exact ⟨c, (getElem?_apply_of_ne hev).trans hc, h⟩

theorem Counted.apply {pair : String} {is : List Nat} (h : w.Counted e rs pair is) (ev : Event) :
    (w.apply e ev).Counted e rs pair is := by
  refine ⟨h.distinct, fun i hi => ?_, h.concern⟩
  obtain ⟨c, hc, hsettled⟩ := h.settled i hi
  exact settled_apply hc hsettled ev

/-- The last of the calls, when one more is settled. -/
theorem Counted.push {pair : String} {is : List Nat} (h : w.Counted e rs pair is) {i : Nat}
    (hi : i ∉ is) (hsettled : ∃ c, w.calls[i]? = some c ∧ c.phase.isSettled = true)
    (hconcern : e.Concerns rs pair i) (n : Nat) :
    w.Counted e rs pair ((is ++ [i]).drop n) := by
  have hmem {j : Nat} (hj : j ∈ (is ++ [i]).drop n) : j ∈ is ∨ j = i := by
    simpa using List.mem_of_mem_drop hj
  refine ⟨?_, fun j hj => ?_, fun j hj => ?_⟩
  · refine List.Nodup.sublist (List.drop_sublist _ _) ?_
    refine List.nodup_append.mpr ⟨h.distinct, List.nodup_singleton i, ?_⟩
    rintro j hj k hk rfl
    exact hi (List.mem_singleton.mp hk ▸ hj)
  · rcases hmem hj with hj | rfl
    · exact h.settled j hj
    · exact hsettled
  · rcases hmem hj with hj | rfl
    · exact h.concern j hj
    · exact hconcern

/-- A circuit that is not closed has been overloaded by calls that are settled now. -/
theorem Watched.overloaded {pair : String} (h : w.Watched e rs pair)
    (hopen : (w.state.circuits.circuit pair).state ≠ .closed) :
    ∃ is, w.Counted e rs pair is ∧ e.Overloads rs pair is := by
  obtain ⟨is, hcounted, ⟨hclosed, -⟩ | hover⟩ := h
  · exact absurd hclosed hopen
  · exact ⟨is, hcounted, hover⟩

theorem Watched.of_staysClosed {w' : World} {pair : String} (h : w.Watched e rs pair)
    (hcounted : ∀ is, w.Counted e rs pair is → w'.Counted e rs pair is)
    (hstays : (w.state.circuits.circuit pair).StaysClosed (w'.state.circuits.circuit pair)) :
    w'.Watched e rs pair := by
  obtain ⟨is, his, hcase⟩ := h
  refine ⟨is, hcounted is his, hcase.imp_left fun ⟨hclosed, houtcomes⟩ => ?_⟩
  obtain ⟨hclosed', hsame⟩ := hstays hclosed
  exact ⟨hclosed', hsame ▸ houtcomes⟩

/-- When a leader reports, its circuit keeps the last outcomes, or they have overloaded it. -/
theorem Watched.report {w' : World} {pair : String} (h : w.Watched e rs pair) {i : Nat} {c : Call}
    {l : Lead} {o : Outcome} (hi : rs[i]? = some c.request) (hc : w.calls[i]? = some c)
    (hp : c.phase = .concluded l o) (hfits : Fits e rs i c.request (.concluded l o))
    (hsettings : w.state.circuits.settings = e.settings.engine.breaker)
    (hcounted : ∀ is, w.Counted e rs pair is → w'.Counted e rs pair is)
    (hsettled : ∃ c', w'.calls[i]? = some c' ∧ c'.phase.isSettled = true)
    (hcircuits : w'.state.circuits =
      w.state.circuits.record w.state.now l.permit o.isOk) : w'.Watched e rs pair := by
  obtain ⟨⟨hroute, hpair⟩, ho⟩ := hfits
  rcases w.state.circuits.circuit_record_cases w.state.now pair l.permit o.isOk with
    hsame | ⟨rfl, hrecord⟩
  · refine h.of_staysClosed hcounted ?_
    rw [hcircuits, hsame]
    exact fun hclosed => ⟨hclosed, rfl⟩
  rw [← hcircuits, hsettings] at hrecord
  obtain ⟨is, his, ⟨hclosed, houtcomes⟩ | hover⟩ := h
  swap
  · exact ⟨is, hcounted is his, .inr hover⟩
  rcases Circuit.record_closed hclosed e.settings.engine.breaker w.state.now l.permit.trial o.isOk
    with hstays | ⟨n, hcases⟩
  · exact Watched.of_staysClosed ⟨is, his, .inl ⟨hclosed, houtcomes⟩⟩ hcounted (hrecord ▸ hstays)
  have hnew : i ∉ is := by
    intro hmem
    obtain ⟨d, hd, hsettled⟩ := his.settled i hmem
    cases hc.symm.trans hd
    rw [hp] at hsettled
    cases hsettled
  have hconcern : e.Concerns rs l.permit.pair i := ⟨c.request, l.route, hi, hroute, hpair.symm⟩
  have hflag : e.succeeds rs i = o.isOk := by simp [Setup.succeeds, hi, ho]
  have hflags : ((w.state.circuits.circuit l.permit.pair).outcomes.map (·.2) ++ [o.isOk]).drop n =
      ((is ++ [i]).drop n).map (e.succeeds rs) := by
    rw [houtcomes, List.map_drop, List.map_append, List.map_singleton, hflag]
  have hpushed := (hcounted is his).push hnew hsettled hconcern n
  rw [hflags, ← hrecord] at hcases
  refine ⟨(is ++ [i]).drop n, hpushed, hcases.imp_right fun ⟨henough, hshare⟩ => ?_⟩
  rw [List.length_map] at henough hshare
  rw [List.countP_map] at hshare
  exact ⟨hpushed.distinct, hpushed.concern, henough, hshare⟩

/-- What is true of the world of a batch whenever its calls are in time. -/
structure Isolated (e : Setup) (rs : List Request) (w : World) : Prop where
  sound : w.Sound e (OwnWork e rs) False
  requests : w.calls.map (·.request) = rs
  settings : w.state.circuits.settings = e.settings.engine.breaker
  watched : ∀ pair, w.Watched e rs pair
  fits : ∀ (i : Nat) (c : Call), w.calls[i]? = some c → Fits e rs i c.request c.phase

theorem Isolated.request (h : w.Isolated e rs) {i : Nat} {c : Call} (hc : w.calls[i]? = some c) :
    rs[i]? = some c.request := by
  rw [← h.requests, List.getElem?_map, hc, Option.map_some]

/-- A call that is refused finds a circuit that others have overloaded. -/
theorem Isolated.refused (h : w.Isolated e rs) {i : Nat} {c : Call} (hc : w.calls[i]? = some c)
    {rt : Route} (hp : c.phase = .missed rt)
    (hopen : (w.state.circuits.circuit rt.pair).state ≠ .closed) :
    ∃ is, i ∉ is ∧ e.Overloads rs rt.pair is := by
  obtain ⟨is, hcounted, hover⟩ := (h.watched rt.pair).overloaded hopen
  refine ⟨is, fun hi => ?_, hover⟩
  obtain ⟨d, hd, hsettled⟩ := hcounted.settled i hi
  cases hc.symm.trans hd
  rw [hp] at hsettled
  cases hsettled

theorem Isolated.apply (h : w.Isolated e rs) (hv : e.validator = none)
    (hsized : ∀ r ∈ rs, r.Sized) (hdigest : Distinguished rs) {ev : Event}
    (hx : w.expires ev = false) : (w.apply e ev).Isolated e rs := by
  have hsound := h.sound.apply_ownWork hv hsized hdigest h.requests hx
  have hrequests := (requests_apply e w ev).trans h.requests
  cases ev with
  | wait ms =>
    refine ⟨hsound, hrequests, h.settings, fun pair => ?_, h.fits⟩
    exact (h.watched pair).of_staysClosed (fun _ his => his.apply _) fun hclosed => ⟨hclosed, rfl⟩
  | move i =>
    have hcounted (pair : String) (is : List Nat) (his : w.Counted e rs pair is) :
        (w.apply e (.move i)).Counted e rs pair is := his.apply _
    rcases w.move_cases e i with hm | ⟨c, s', p, hc, hs, ht, hm⟩
    · rw [World.apply, hm]
      exact h
    · rw [World.apply, hm] at hsound hrequests hcounted ⊢
      have hi := h.request hc
      have hfits := h.fits i c hc
      refine ⟨hsound, hrequests, (ht.touches hs).settings.trans h.settings, fun pair => ?_,
        fun j d hd => ?_⟩
      · rcases ht.circuits_cases hs with ⟨l, o, hp, rfl, hcircuits⟩ | htouches
        · rw [hp] at hfits
          refine (h.watched pair).report hi hc hp hfits h.settings (hcounted pair) ?_ hcircuits
          exact ⟨_, (getElem?_moved hc _ i).trans (if_pos rfl), rfl⟩
        · exact (h.watched pair).of_staysClosed (hcounted pair) (htouches.staysClosed pair)
      · rw [getElem?_moved hc] at hd
        split at hd
        · rename_i hji
          cases hd
          subst hji
          have hexpires : c.expires w.state = false := by simpa [expires, hc] using hx
          exact ht.fits hs hexpires hv (List.mem_of_getElem? hi) h.sound.flights h.sound.cache
            (h.sound.stands _ c hc) (fun rt hp hopen => h.refused hc hp hopen) hfits
        · exact h.fits j d hd

end World

/-! ### Samples do not matter -/

namespace World

variable {e : Setup} {w w' : World}

end World

/-! ### Batches -/

namespace OneStrike

/-- One failure is enough to open a circuit. -/
def setup : Setup := { settings := { engine := { breaker := { minRequests := 1 } } } }

def malformed : BatchRequest := ⟨"malformed", "x", "siem", "siem", {}⟩

def sound : BatchRequest := ⟨"sound", "a=b", "siem", "siem", {}⟩

def batch : World := batchStart ⟨setup, .ofSettings setup.settings⟩ [malformed, sound]

/-- The request that cannot be read is worked on first. -/
def history : List World.Event := [0, 0, 0, 0, 0, 0, 0, 0, 0, 0, 1, 1, 1, 1].map .move

def alone : World := World.start setup [sound.request setup.options]

/-- Without its sibling, the other request goes its way to the end. -/
def lone : List World.Event := (List.replicate 10 0).map .move

theorem facts :
    Along (World.apply setup) (fun w ev => w.expires ev = false) batch history ∧
    ((batch.run setup history).outcome? 1).any (!·.isOk) = true ∧
    Along (World.apply setup) (fun w ev => w.expires ev = false) alone lone ∧
    ((alone.run setup lone).outcome? 0).any (·.isOk) = true := by
  decide +kernel

end OneStrike

end Engine

end RuleExchange
