import RuleExchange.Proofs.CallSteps
import RuleExchange.Proofs.History

/-! Sound worlds. In every world that calls can reach, each key under way is led by exactly
one call, a follower waits for a leader of its own fingerprint or for what such a leader has
left, and every outcome that is stored, published or about to be comes from a leader that
concluded it under the same fingerprint. What is good of every outcome that a leader
concludes is therefore good of every outcome that is handed on. -/

namespace RuleExchange.Engine

namespace Call

/-- The lead of a request: its key is under way with the leader's ticket. -/
structure Leads (e : Setup) (f : Outcomes) (r : Request) (l : Lead) : Prop where
  route : route e r = .ok l.route
  key : l.leader.key = l.route.key
  underWay : (l.leader.key, l.leader.ticket) ∈ f.underWay

/-- The answers that a request may get, when the outcomes handed on are good. -/
inductive Answers (e : Setup) (good : Fingerprint → Outcome → Prop) (late : Prop) (r : Request) :
    Outcome → Prop where
  | rejected {f} (h : route e r = .error f) : Answers e good late r (.error f)
  | refused {rt ms} (h : route e r = .ok rt) :
      Answers e good late r (.error (.circuitOpen rt.pair ms))
  | expired (h : late) : Answers e good late r (.error (timeoutFailure r.options))
  | shared {o} (h : good (.ofRequest r) o) : Answers e good late r o

/-- What is true of a call in each of its phases. -/
def Stands (e : Setup) (good : Fingerprint → Outcome → Prop) (late : Prop) (f : Outcomes)
    (r : Request) : Phase → Prop
  | .queued | .arrived => True
  | .resolved rt | .missed rt | .entered rt _ => route e r = .ok rt
  | .following t _ =>
    (.ofRequest r, t) ∈ f.underWay ∨ ∃ o, f.result? t = some (some o) ∧ good (.ofRequest r) o
  | .leading l | .executing l _ => Leads e f r l
  | .pausing l d _ _ | .asking l d _ _ _ =>
    Leads e f r l ∧ e.draft l.route r = .ok d ∧ e.validator ≠ none
  | .concluded l o | .recorded l o | .publishing l o _ => Leads e f r l ∧ good l.route.key o
  | .answered o | .finished o => Answers e good late r o

variable {e : Setup} {good : Fingerprint → Outcome → Prop} {late : Prop} {s s' : State}
  {f f' : Outcomes} {r : Request} {p p' : Phase}

theorem Stands.leads {l : Lead} (h : Stands e good late f r p) (hl : p.lead? = some l) :
    Leads e f r l := by
  cases p with
  | leading | executing =>
    cases hl
    exact h
  | pausing | asking | concluded | recorded | publishing =>
    cases hl
    exact h.1
  | queued | arrived | resolved | missed | entered | following | answered | finished => cases hl

/-- More may be good, and more calls may be late. -/
theorem Stands.mono {good' : Fingerprint → Outcome → Prop} {late' : Prop}
    (hg : ∀ k o, good k o → good' k o) (hl : late → late')
    (h : Stands e good late f r p) : Stands e good' late' f r p := by
  cases p with
  | queued | arrived | resolved | missed | entered | leading | executing | pausing | asking =>
    exact h
  | following t d =>
    rcases h with h | ⟨o, ho, hgo⟩
    · exact .inl h
    · exact .inr ⟨o, ho, hg _ o hgo⟩
  | concluded l o | recorded l o | publishing l o => exact ⟨h.1, hg _ o h.2⟩
  | answered o | finished o =>
    cases h with
    | rejected h => exact .rejected h
    | refused h => exact .refused h
    | expired h => exact .expired (hl h)
    | shared h => exact .shared (hg _ o h)

/-- A call stands in other flights when its own lead or ticket does. -/
theorem Stands.of_flights (h : Stands e good late f r p)
    (hl : ∀ l, p.lead? = some l → (l.leader.key, l.leader.ticket) ∈ f'.underWay)
    (ht : ∀ t d, p = .following t d → Stands e good late f' r p) :
    Stands e good late f' r p := by
  have hleads (l : Lead) (hp : p.lead? = some l) : Leads e f' r l :=
    ⟨(h.leads hp).route, (h.leads hp).key, hl l hp⟩
  cases p with
  | queued | arrived | resolved | missed | entered | answered | finished => exact h
  | following t d => exact ht t d rfl
  | leading l | executing l => exact hleads l rfl
  | pausing l | asking l | concluded l | recorded l | publishing l => exact ⟨hleads l rfl, h.2⟩

/-- What a follower receives is good. -/
theorem Stands.received {t d : Nat} {o : Outcome} (hf : f.WellFormed)
    (h : Stands e good late f r (.following t d)) (ho : f.result? t = some (some o)) :
    good (.ofRequest r) o := by
  rcases h with h | ⟨o', ho', hg⟩
  · simp [hf.result?_of_underWay h] at ho
  · cases ho.symm.trans ho'
    exact hg

/-- No leader leaves without an outcome. -/
theorem Stands.not_lost {t d : Nat} (hf : f.WellFormed)
    (h : Stands e good late f r (.following t d)) : f.result? t ≠ some none := by
  intro ho
  rcases h with h | ⟨o', ho', -⟩
  · simp [hf.result?_of_underWay h] at ho
  · cases ho.symm.trans ho'

/-- A step of a call leaves it standing, if what it concludes is good. -/
theorem Transition.stands (ht : Transition e s r p s' p') (hf : s.flights.WellFormed)
    (hcache : ∀ k x, (k, x) ∈ s.cache.entries → good k (.ok x))
    (hgood : ∀ l o, p' = .concluded l o → good l.route.key o)
    {began : Option Nat} (hlate : expires s ⟨r, p, began⟩ = true → late)
    (h : Stands e good late s.flights r p) : Stands e good late s'.flights r p' := by
  cases ht with
  | reject hr => exact .rejected hr
  | resolve hr => exact hr
  | hit hx hs => exact .shared (key_of_route h ▸ hcache _ _ (Cache.mem_of_get? hx))
  | miss | enter => exact h
  | refuse hs => exact .refused h
  | follow hm hs => exact .inl (hs.flights ▸ key_of_route h ▸ hm)
  | lead hm => exact ⟨h, rfl, Flights.mem_underWay_launch.mpr (.inr ⟨rfl, rfl⟩)⟩
  | receive ho hs => exact .shared (h.received hf ho)
  | lose ho => exact absurd ho (h.not_lost hf)
  | leave ho hd => exact .expired (hlate (by simp [expires, ho, hd]))
  | find hx hs =>
    rw [hs.flights]
    exact ⟨h, hcache _ _ (Cache.mem_of_get? hx)⟩
  | begin hx => exact h
  | fail | finish => exact ⟨h, hgood _ _ rfl⟩
  | write hd hv => exact ⟨h, hd, hv⟩
  | lateExecuting => exact ⟨h, hgood _ _ rfl⟩
  | skip | latePausing | accept | lateAsking => exact ⟨h.1, hgood _ _ rfl⟩
  | ask hs =>
    rw [hs.flights]
    exact h
  | retry => exact h
  | record hs =>
    rw [hs.flights]
    exact h
  | store =>
    rw [State.flights_store]
    exact h
  | publish hs => exact .shared (key_of_route h.1.route ▸ h.2)
  | account hs => exact h

end Call

namespace World

open Call

def lead? (w : World) (i : Nat) : Option Lead := (w.calls[i]?).bind (·.phase.lead?)

theorem lead?_of_call {w : World} {i : Nat} {c : Call} (h : w.calls[i]? = some c) :
    w.lead? i = c.phase.lead? := by
  simp [lead?, h]

theorem exists_of_lead? {w : World} {i : Nat} {l : Lead} (h : w.lead? i = some l) :
    ∃ c, w.calls[i]? = some c ∧ c.phase.lead? = some l :=
  Option.bind_eq_some_iff.mp h

/-- A world in which the work under way is led by the right calls, and in which every outcome
that is handed on is good. -/
structure Sound (e : Setup) (good : Fingerprint → Outcome → Prop) (late : Prop) (w : World) :
    Prop where
  flights : w.state.flights.WellFormed
  cache : ∀ k x, (k, x) ∈ w.state.cache.entries → good k (.ok x)
  stands : ∀ (i : Nat) (c : Call), w.calls[i]? = some c →
    Stands e good late w.state.flights c.request c.phase
  /-- No two calls lead the same key. -/
  alone : ∀ i j l m, w.lead? i = some l → w.lead? j = some m →
    l.leader.key = m.leader.key → i = j
  /-- Every key under way has its leader. -/
  led : ∀ k t, (k, t) ∈ w.state.flights.underWay → ∃ i l, w.lead? i = some l ∧ l.leader = ⟨k, t⟩

variable {e : Setup} {good : Fingerprint → Outcome → Prop} {late : Prop} {w : World}

theorem Sound.mono {good' : Fingerprint → Outcome → Prop} {late' : Prop}
    (hg : ∀ k o, good k o → good' k o) (hl : late → late') (h : w.Sound e good late) :
    w.Sound e good' late' where
  flights := h.flights
  cache k x hx := hg k _ (h.cache k x hx)
  stands i c hc := (h.stands i c hc).mono hg hl
  alone := h.alone
  led := h.led

theorem Sound.leads (h : w.Sound e good late) {i : Nat} {l : Lead} (hl : w.lead? i = some l) :
    ∃ c, w.calls[i]? = some c ∧ c.phase.lead? = some l ∧ Leads e w.state.flights c.request l := by
  obtain ⟨c, hc, hcl⟩ := exists_of_lead? hl
  exact ⟨c, hc, hcl, (h.stands i c hc).leads hcl⟩

/-! ### Starting -/

/-- A fresh engine with calls that have just arrived. -/
def start (e : Setup) (rs : List Request) : World :=
  ⟨.ofSettings e.settings, rs.map fun r => { request := r }⟩

theorem calls_start {rs : List Request} {i : Nat} {c : Call}
    (h : (start e rs).calls[i]? = some c) : rs[i]? = some c.request ∧ c.phase = .arrived := by
  simp only [start, List.getElem?_map, Option.map_eq_some_iff] at h
  obtain ⟨r, hr, rfl⟩ := h
  exact ⟨hr, rfl⟩

theorem sound_start (e : Setup) (good : Fingerprint → Outcome → Prop) (late : Prop)
    (rs : List Request) : (start e rs).Sound e good late where
  flights := Flights.wellFormed_empty
  cache k x hx := by simp [start, State.ofSettings, Cache.ofCapacity] at hx
  stands i c hc := by
    obtain ⟨-, hp⟩ := calls_start hc
    rw [hp]
    trivial
  alone i j l m hl := by
    obtain ⟨c, hc, hcl⟩ := exists_of_lead? hl
    rw [(calls_start hc).2] at hcl
    cases hcl
  led k t hk := by simp [start, State.ofSettings] at hk

/-! ### Moving -/

section Moving

variable {i n : Nat} {c : Call} {s' : State} {p : Phase}

theorem getElem?_moved (hc : w.calls[i]? = some c) (c' : Call) (j : Nat) :
    (w.calls.set i c')[j]? = if j = i then some c' else w.calls[j]? :=
  History.getElem?_set_of_some hc c' j

theorem lead?_moved (hc : w.calls[i]? = some c) (s' : State) (p : Phase) (j : Nat) :
    (World.mk s' (w.calls.set i (c.go n p))).lead? j = if j = i then p.lead? else w.lead? j := by
  unfold lead?
  rw [getElem?_moved hc]
  split <;> rfl

theorem Sound.flights_moved (h : w.Sound e good late) (hc : w.calls[i]? = some c)
    (ht : Transition e w.state c.request c.phase s' p) : s'.flights.WellFormed := by
  rcases ht.flights_cases with ⟨hf, -⟩ | ⟨l, -, -, -, hfree, hf⟩ | ⟨l, o, hl, -, -, hf⟩
  · exact hf ▸ h.flights
  · exact hf ▸ Flights.wellFormed_launch h.flights hfree
  · exact hf ▸ Flights.wellFormed_land h.flights ((h.stands i c hc).leads hl).underWay (some o)

theorem Sound.cache_moved (h : w.Sound e good late) (hc : w.calls[i]? = some c)
    (ht : Transition e w.state c.request c.phase s' p) (k : Fingerprint) (x : Exchange)
    (hx : (k, x) ∈ s'.cache.entries) : good k (.ok x) := by
  rcases ht.cache_cases with hs | ⟨l, o, hp, -, rfl⟩
  · exact h.cache k x (hs ▸ hx)
  · rcases State.mem_cache_store hx with ⟨rfl, rfl⟩ | hx
    · have hst := h.stands i c hc
      rw [hp] at hst
      exact hst.2
    · exact h.cache k x hx

/-- A leader that publishes leaves the other leaders alone, and its own followers find what it
has left. -/
theorem Sound.stands_others (h : w.Sound e good late) (hc : w.calls[i]? = some c)
    (ht : Transition e w.state c.request c.phase s' p) {j : Nat} {d : Call} (hj : j ≠ i)
    (hd : w.calls[j]? = some d) : Stands e good late s'.flights d.request d.phase := by
  have hst := h.stands j d hd
  rcases ht.flights_cases with ⟨hf, -⟩ | ⟨l, -, -, -, -, hf⟩ | ⟨l, o, hl, -, ⟨held, hp⟩, hf⟩
  · exact hf ▸ hst
  · rw [hf]
    refine hst.of_flights (fun m hm => ?_) fun t dl hp => ?_
    · exact Flights.mem_underWay_launch.mpr (.inl (hst.leads hm).underWay)
    · rw [hp] at hst ⊢
      rcases hst with hst | hst
      · exact .inl (Flights.mem_underWay_launch.mpr (.inl hst))
      · exact .inr hst
  · rw [hf]
    have hlead := h.stands i c hc
    rw [hp] at hlead
    refine hst.of_flights (fun m hm => ?_) fun t dl hpd => ?_
    · refine Flights.mem_underWay_land.mpr ⟨(hst.leads hm).underWay, fun hk => hj ?_⟩
      exact h.alone j i m l ((lead?_of_call hd).trans hm) ((lead?_of_call hc).trans hl) hk
    · rw [hpd] at hst ⊢
      rcases hst with hst | ⟨o', ho', hg⟩
      · by_cases hk : .ofRequest d.request = l.leader.key
        · have ht : t = l.leader.ticket :=
            h.flights.ticket_unique hst (hk ▸ hlead.1.underWay)
          refine .inr ⟨o, ?_, hk ▸ hlead.1.key ▸ hlead.2⟩
          rw [ht]
          exact Flights.result?_land_self (fun v => h.flights.apart _ _ v hlead.1.underWay) _
        · exact .inl (Flights.mem_underWay_land.mpr ⟨hst, hk⟩)
      · exact .inr ⟨o', Flights.result?_land_of_some ho' _ _, hg⟩

/-- A lead that stays what it was. -/
theorem lead?_moved_same (hc : w.calls[i]? = some c) (hp : p.lead? = c.phase.lead?) (s' : State)
    (j : Nat) : (World.mk s' (w.calls.set i (c.go n p))).lead? j = w.lead? j := by
  rw [lead?_moved hc]
  split
  · rename_i hj
    rw [hj, hp, lead?_of_call hc]
  · rfl

theorem Sound.alone_moved (h : w.Sound e good late) (hc : w.calls[i]? = some c)
    (ht : Transition e w.state c.request c.phase s' p) {j j' : Nat} {m m' : Lead}
    (hm : (World.mk s' (w.calls.set i (c.go n p))).lead? j = some m)
    (hm' : (World.mk s' (w.calls.set i (c.go n p))).lead? j' = some m')
    (hk : m.leader.key = m'.leader.key) : j = j' := by
  rcases ht.flights_cases with ⟨-, hl⟩ | ⟨l, -, rfl, hlead, hfree, -⟩ | ⟨l, o, -, hl, -, -⟩
  · rw [lead?_moved_same hc hl] at hm hm'
    exact h.alone j j' m m' hm hm' hk
  · -- the key of the new leader was free, so nobody else leads it
    have hnew {j : Nat} {m : Lead} (hm : w.lead? j = some m) : m.leader.key ≠ l.leader.key := by
      obtain ⟨d, -, -, hd⟩ := h.leads hm
      intro hkey
      have hkey : m.leader.key = l.route.key := by rw [hkey, hlead]
      exact hfree m.leader.ticket (hkey ▸ hd.underWay)
    rw [lead?_moved hc] at hm hm'
    split at hm <;> split at hm'
    · simp_all
    · cases hm
      exact absurd hk.symm (hnew hm')
    · cases hm'
      exact absurd hk (hnew hm)
    · exact h.alone j j' m m' hm hm' hk
  · rw [lead?_moved hc, hl] at hm hm'
    split at hm <;> split at hm'
    · cases hm
    · cases hm
    · cases hm'
    · exact h.alone j j' m m' hm hm' hk

theorem Sound.led_moved (h : w.Sound e good late) (hc : w.calls[i]? = some c)
    (ht : Transition e w.state c.request c.phase s' p) {k : Fingerprint} {t : Nat}
    (hk : (k, t) ∈ s'.flights.underWay) :
    ∃ j m, (World.mk s' (w.calls.set i (c.go n p))).lead? j = some m ∧ m.leader = ⟨k, t⟩ := by
  rcases ht.flights_cases with ⟨hf, hl⟩ | ⟨l, hnone, rfl, hlead, -, hf⟩ | ⟨l, o, hsome, -, -, hf⟩
  · obtain ⟨j, m, hm, hlead⟩ := h.led k t (hf ▸ hk)
    exact ⟨j, m, (lead?_moved_same hc hl s' j).trans hm, hlead⟩
  · rw [hf, Flights.mem_underWay_launch] at hk
    rcases hk with hk | ⟨rfl, rfl⟩
    · obtain ⟨j, m, hm, hmk⟩ := h.led k t hk
      refine ⟨j, m, ?_, hmk⟩
      rw [lead?_moved hc, if_neg, hm]
      rintro rfl
      simp [lead?_of_call hc, hnone] at hm
    · exact ⟨i, l, by rw [lead?_moved hc, if_pos rfl]; rfl, hlead⟩
  · rw [hf] at hk
    obtain ⟨hk, hne⟩ := Flights.mem_underWay_land.mp hk
    obtain ⟨j, m, hm, hmk⟩ := h.led k t hk
    refine ⟨j, m, ?_, hmk⟩
    rw [lead?_moved hc, if_neg, hm]
    rintro rfl
    rw [lead?_of_call hc, hsome] at hm
    cases hm
    exact hne (by rw [hmk])

end Moving

/-- A move leaves a world sound, if what it concludes is good. -/
theorem Sound.move (h : w.Sound e good late) (i : Nat)
    (hlate : w.expires (.move i) = true → late)
    (hgood : ∀ c s' l o, w.calls[i]? = some c →
      c.step e w.state = some (s', c.go w.state.now (.concluded l o)) → good l.route.key o) :
    (w.move e i).Sound e good late := by
  rcases w.move_cases e i with hm | ⟨c, s', p, hc, hs, ht, hm⟩
  · rw [hm]
    exact h
  · rw [hm]
    have hexp : c.expires w.state = true → late := by simpa [expires, hc] using hlate
    refine ⟨h.flights_moved hc ht, h.cache_moved hc ht, fun j d hd => ?_,
      fun _ _ _ _ => h.alone_moved hc ht, fun _ _ => h.led_moved hc ht⟩
    rw [getElem?_moved hc] at hd
    split at hd
    · cases hd
      exact ht.stands h.flights h.cache (fun l o hp => hgood c s' l o hc (hp ▸ hs)) hexp
        (h.stands i c hc)
    · rename_i hj
      exact h.stands_others hc ht hj hd

theorem Sound.wait (h : w.Sound e good late) (ms : Nat) : (w.wait ms).Sound e good late :=
  ⟨h.flights, h.cache, h.stands, h.alone, h.led⟩

theorem requests_apply (e : Setup) (w : World) (ev : Event) :
    (w.apply e ev).calls.map (·.request) = w.calls.map (·.request) := by
  cases ev with
  | wait ms => rfl
  | move i =>
    rcases w.move_cases e i with hm | ⟨c, s', p, hc, -, -, hm⟩
    · simp [apply, hm]
    · apply List.ext_getElem?
      intro j
      rw [apply, hm, List.getElem?_map, List.getElem?_map, getElem?_moved hc]
      split
      · rename_i hj
        rw [hj, hc]
        rfl
      · rfl

theorem requests_run (e : Setup) (w : World) (history : List Event) :
    (w.run e history).calls.map (·.request) = w.calls.map (·.request) := by
  induction history generalizing w with
  | nil => rfl
  | cons ev rest ih => exact (ih (w.apply e ev)).trans (requests_apply e w ev)

theorem request_of_run {e : Setup} {rs : List Request} {history : List Event} {i : Nat} {c : Call}
    (h : ((start e rs).run e history).calls[i]? = some c) : rs[i]? = some c.request := by
  have hget := congrArg (·[i]?) (requests_run e (start e rs) history)
  simp only [List.getElem?_map, h] at hget
  simpa [start, Function.comp_def] using hget.symm

end World

end RuleExchange.Engine
