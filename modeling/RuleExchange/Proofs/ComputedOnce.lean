import RuleExchange.Proofs.Watch

/-! A successful result is computed once. For one key the work is untouched, then in the hands
of a leader that consults the validator, then settled: its outcome is held by the leader
that is about to store it, or it is in the cache. A new leader looks into the cache before
it works, and a leader stores its outcome before it releases the key, so settled work is
never done again while the entry stays. -/

namespace RuleExchange.Engine

open History (Along)

/-- The lead of a call that has an outcome which is not stored yet. -/
def Phase.holds? : Phase → Option Lead
  | .concluded l _ | .recorded l _ => some l
  | _ => none

theorem Phase.lead?_of_holds? {p : Phase} {l : Lead} (h : p.holds? = some l) :
    p.lead? = some l := by
  cases p <;> first | exact h | cases h

theorem Phase.executes_eq_false {k : Fingerprint} {p : Phase}
    (h : ∀ l, p.lead? = some l → l.route.key ≠ k) : p.executes k = false := by
  cases p with
  | executing l => simpa [executes] using h l rfl
  | _ => rfl

theorem Phase.concluded?_eq_none {k : Fingerprint} {p : Phase}
    (h : ∀ l, p.lead? = some l → l.route.key ≠ k) : p.concluded? k = none := by
  cases p with
  | concluded l o => simpa [concluded?] using h l rfl
  | _ => rfl

/-- How far the work of a key has come. -/
inductive WorkStage where
  | untouched
  | working
  | settled (o : Outcome)

namespace WorkStage

open Call (Transition)

@[simp] def executions : WorkStage → Nat
  | .untouched => 0
  | .working | .settled _ => 1

@[simp] def results : WorkStage → List Outcome
  | .untouched | .working => []
  | .settled o => [o]

/-- The phases in which a leader of the key may be. -/
def Allows : WorkStage → Phase → Prop
  | .untouched, .leading _ | .untouched, .executing _ _ => True
  | .working, .pausing _ _ _ _ | .working, .asking _ _ _ _ _ => True
  | .settled _, .leading _ | .settled _, .concluded _ _ | .settled _, .recorded _ _
  | .settled _, .publishing _ _ _ => True
  | _, _ => False

/-- Work that was begun is in somebody's hands or in the cache. -/
def Kept (k : Fingerprint) (w : World) : WorkStage → Prop
  | .untouched => True
  | .working => ∃ i l, w.lead? i = some l ∧ l.route.key = k
  | .settled o => o.isOk = true ∧ (w.state.cache.contains k = true ∨
      ∃ (i : Nat) (c : Call) (l : Lead), w.calls[i]? = some c ∧ c.phase.holds? = some l ∧
        l.route.key = k)

/-- The watch shows a key at this stage. -/
structure Fits (k : Fingerprint) (v : Watch) (st : WorkStage) : Prop where
  executions : v.executions = st.executions
  results : v.results = st.results
  allows : ∀ (i : Nat) (c : Call) (l : Lead), v.world.calls[i]? = some c →
    c.phase.lead? = some l → l.route.key = k → st.Allows c.phase
  kept : st.Kept k v.world

variable {e : Setup} {k : Fingerprint} {v : Watch} {st : WorkStage} {i : Nat} {c : Call}
  {s' : State} {p : Phase}

/-- No call but the `i`th leads the key. -/
def Only (k : Fingerprint) (w : World) (i : Nat) : Prop :=
  ∀ (j : Nat) (d : Call) (l : Lead), j ≠ i → w.calls[j]? = some d → d.phase.lead? = some l →
    l.route.key ≠ k

/-- A result that nobody holds is in the cache. -/
theorem Fits.contains {o : Outcome} (h : (settled o).Fits k v) (honly : Only k v.world i)
    (hc : v.world.calls[i]? = some c) (hp : c.phase.holds? = none) :
    v.world.state.cache.contains k = true := by
  rcases h.kept.2 with h | ⟨j, d, l, hd, hl, hk⟩
  · exact h
  · by_cases hj : j = i
    · subst hj
      cases hd.symm.trans hc
      cases hp.symm.trans hl
    · exact absurd hk (honly j d l hj hd (Phase.lead?_of_holds? hl))

/-- A step of the `i`th call. -/
structure Turn (e : Setup) (k : Fingerprint) (v : Watch) (i : Nat) (c : Call) (s' : State)
    (p : Phase) : Prop where
  call : v.world.calls[i]? = some c
  transition : Transition e v.world.state c.request c.phase s' p
  /-- The entry of the key is not evicted. -/
  cache : v.world.state.cache.contains k = true → s'.cache.contains k = true

/-- The watch after a step. -/
def after (k : Fingerprint) (v : Watch) (i : Nat) (c : Call) (s' : State) (p : Phase) : Watch :=
  v.note k i c ⟨s', v.world.calls.set i (c.go v.world.state.now p)⟩ p

/-- A step of the only leader decides the stage. -/
theorem fits_after (hturn : Turn e k v i c s' p) (honly : Only k v.world i)
    (hn : v.executions + (c.phase.executes k).toNat = st.executions)
    (hr : v.results ++ (p.concluded? k).toList = st.results)
    (hp : ∀ l, p.lead? = some l → l.route.key = k → st.Allows p)
    (hkept : st.Kept k ⟨s', v.world.calls.set i (c.go v.world.state.now p)⟩) :
    st.Fits k (after k v i c s' p) := by
  refine ⟨hn, hr, fun j d l hd hl hk => ?_, hkept⟩
  replace hd : (v.world.calls.set i (c.go v.world.state.now p))[j]? = some d := hd
  rw [World.getElem?_moved hturn.call] at hd
  split at hd
  · cases hd
    exact hp l hl hk
  · rename_i hj
    exact absurd hk (honly j d l hj hd hl)

/-- The leader that took the step has the work in its hands. -/
theorem kept_working (hturn : Turn e k v i c s' p) {l : Lead} (hl : p.lead? = some l)
    (hk : l.route.key = k) : working.Kept k ⟨s', v.world.calls.set i (c.go v.world.state.now p)⟩ :=
  ⟨i, l, by rw [World.lead?_moved hturn.call, if_pos rfl, hl], hk⟩

theorem kept_holding (hturn : Turn e k v i c s' p) {o : Outcome} (ho : o.isOk = true) {l : Lead}
    (hl : p.holds? = some l) (hk : l.route.key = k) :
    (settled o).Kept k ⟨s', v.world.calls.set i (c.go v.world.state.now p)⟩ :=
  ⟨ho, .inr ⟨i, c.go v.world.state.now p, l,
    by rw [World.getElem?_moved hturn.call, if_pos rfl], hl, hk⟩⟩

/-- The first outcome settles the work. -/
theorem fits_concluded {l : Lead} {o : Outcome} (hturn : Turn e k v i c s' (.concluded l o))
    (honly : Only k v.world i) (hk : l.route.key = k)
    (hn : v.executions + (c.phase.executes k).toNat = 1) (hr : v.results = [])
    (ho : o.isOk = true) : (settled o).Fits k (after k v i c s' (.concluded l o)) := by
  refine fits_after hturn honly hn ?_ (fun _ _ _ => trivial) (kept_holding hturn ho rfl hk)
  simp [Phase.concluded?, hk, hr]

/-- A step of a call that has nothing to do with the key changes nothing. -/
theorem Fits.bystander (h : st.Fits k v) (hturn : Turn e k v i c s' p)
    (hbefore : ∀ l, c.phase.lead? = some l → l.route.key ≠ k)
    (hafter : ∀ l, p.lead? = some l → l.route.key ≠ k) : st.Fits k (after k v i c s' p) := by
  have hexec := Phase.executes_eq_false hbefore
  have hconc := Phase.concluded?_eq_none hafter
  refine ⟨?_, ?_, fun j d l hd hl hk => ?_, ?_⟩
  · simpa [after, Watch.note, hexec] using h.executions
  · simpa [after, Watch.note, hconc] using h.results
  · replace hd : (v.world.calls.set i (c.go v.world.state.now p))[j]? = some d := hd
    rw [World.getElem?_moved hturn.call] at hd
    split at hd
    · cases hd
      exact absurd hk (hafter l hl)
    · exact h.allows j d l hd hl hk
  · show st.Kept k ⟨s', v.world.calls.set i (c.go v.world.state.now p)⟩
    have hkept := h.kept
    cases st with
    | untouched => trivial
    | working =>
      obtain ⟨j, l, hl, hk⟩ := hkept
      refine ⟨j, l, ?_, hk⟩
      rw [World.lead?_moved hturn.call, if_neg, hl]
      rintro rfl
      exact hbefore l (World.lead?_of_call hturn.call ▸ hl) hk
    | settled o =>
      refine ⟨hkept.1, ?_⟩
      rcases hkept.2 with hkept | ⟨j, d, l, hd, hl, hk⟩
      · exact .inl (hturn.cache hkept)
      · refine .inr ⟨j, d, l, ?_, hl, hk⟩
        rw [World.getElem?_moved hturn.call, if_neg, hd]
        rintro rfl
        cases hd.symm.trans hturn.call
        exact hbefore l (Phase.lead?_of_holds? hl) hk

/-- A call that begins to lead leaves the work as it is; settled work is in the cache by then. -/
theorem Fits.lead {l : Lead} (h : st.Fits k v) (hturn : Turn e k v i c s' (.leading l))
    (honly : Only k v.world i) (hl : c.phase.lead? = none) :
    st.Fits k (after k v i c s' (.leading l)) := by
  have hexec : c.phase.executes k = false := Phase.executes_eq_false (by simp [hl])
  have hn : v.executions + (c.phase.executes k).toNat = st.executions := by
    simpa [hexec] using h.executions
  have hr : v.results ++ ((Phase.leading l).concluded? k).toList = st.results := by
    simpa [Phase.concluded?] using h.results
  cases st with
  | untouched => exact fits_after hturn honly hn hr (fun _ _ _ => trivial) trivial
  | working =>
    -- the leader that works would be another one
    obtain ⟨j, m, hm, hk⟩ := h.kept
    obtain ⟨d, hd, hdm⟩ := World.exists_of_lead? hm
    by_cases hj : j = i
    · subst hj
      cases hd.symm.trans hturn.call
      cases hl.symm.trans hdm
    · exact absurd hk (honly j d m hj hd hdm)
  | settled o =>
    have hnot : c.phase.holds? = none := by
      rw [Option.eq_none_iff_forall_ne_some]
      intro m hm
      cases hl.symm.trans (Phase.lead?_of_holds? hm)
    exact fits_after hturn honly hn hr (fun _ _ _ => trivial)
      ⟨h.kept.1, .inl (hturn.cache (h.contains honly hturn.call hnot))⟩

/-- The work of the request succeeds if it has the key. -/
def Succeeds (e : Setup) (k : Fingerprint) (r : Request) : Prop :=
  ∀ rt, Call.route e r = .ok rt → rt.key = k → (e.work rt r).isOk = true

instance (e : Setup) (k : Fingerprint) (r : Request) : Decidable (Succeeds e k r) :=
  match h : Call.route e r with
  | .error _ => isTrue fun rt hrt => by cases h.symm.trans hrt
  | .ok rt =>
    decidable_of_iff (rt.key = k → (e.work rt r).isOk = true)
      ⟨fun hok rt' hrt => by cases h.symm.trans hrt; exact hok, fun hok => hok rt h⟩

theorem Succeeds.of_alike {r q : Request} {qt : Route} (h : Succeeds e k q)
    (halike : Fingerprint.Alike r q) (hq : Call.route e q = .ok qt) : Succeeds e k r := by
  intro rt hr hk
  rw [Setup.work_congr halike hr hq]
  apply h qt hq
  rw [← hk, Call.key_of_route hq, Call.key_of_route hr, Fingerprint.ofRequest_eq_of_alike halike]

theorem isOk_of_draft {rt : Route} {r : Request} {d : Draft} (h : Succeeds e k r)
    (hroute : Call.route e r = .ok rt) (hk : rt.key = k) (hd : e.draft rt r = .ok d)
    (warnings : List Warning) : (e.finishWith rt d warnings).isOk = true := by
  rw [Setup.isOk_finishWith, ← Setup.work_of_ok hd]
  exact h rt hroute hk

section Leader

variable {l : Lead} (hturn : Turn e k v i c s' p) (honly : Only k v.world i)
  (hsound : v.world.Sound e (v.Noted k) True) (hl : c.phase.lead? = some l)
  (hk : l.route.key = k)

include hturn honly hsound hl hk

theorem Fits.of_untouched (h : untouched.Fits k v) (hwork : Succeeds e k c.request)
    (hx : c.expires v.world.state = false) : ∃ st : WorkStage, st.Fits k (after k v i c s' p) := by
  have hallow := h.allows i c l hturn.call hl hk
  have hst := hsound.stands i c hturn.call
  have hn : v.executions = 0 := h.executions
  have hr : v.results = [] := h.results
  have ht := hturn.transition
  obtain ⟨r, q, began⟩ := c
  cases ht with
  | find hget =>
    cases hl
    have hin := hsound.cache _ _ (Cache.mem_of_get? hget) hk
    simp [hr] at hin
  | begin =>
    refine ⟨untouched, fits_after hturn honly hn ?_ (fun _ _ _ => trivial) trivial⟩
    simpa [Phase.concluded?] using hr
  | fail hd =>
    cases hl
    have hok := hwork _ hst.route hk
    rw [Setup.work_of_error hd] at hok
    cases hok
  | finish hd hv =>
    cases hl
    have hok := isOk_of_draft hwork hst.route hk hd []
    exact ⟨_, fits_concluded hturn honly hk (by simp [Phase.executes, hk, hn]) hr hok⟩
  | write hd hv =>
    cases hl
    refine ⟨working, fits_after hturn honly ?_ ?_ (fun _ _ _ => trivial)
      (kept_working hturn rfl hk)⟩
    · simp [Phase.executes, hk, hn]
    · simpa [Phase.concluded?] using hr
  | lateExecuting hw hd => simp [Call.expires, hw, hd] at hx
  | _ => exact hallow.elim

theorem Fits.of_working (h : working.Fits k v) (hwork : Succeeds e k c.request)
    (hx : c.expires v.world.state = false) : ∃ st : WorkStage, st.Fits k (after k v i c s' p) := by
  have hallow := h.allows i c l hturn.call hl hk
  have hst := hsound.stands i c hturn.call
  have hn : v.executions = 1 := h.executions
  have hr : v.results = [] := h.results
  have ht := hturn.transition
  obtain ⟨r, q, began⟩ := c
  cases ht with
  | skip | accept =>
    cases hl
    have hok := isOk_of_draft hwork hst.1.route hk hst.2.1
    exact ⟨_, fits_concluded hturn honly hk hn hr (hok _)⟩
  | ask | retry =>
    refine ⟨working, fits_after hturn honly hn ?_ (fun _ _ _ => trivial)
      (kept_working hturn hl hk)⟩
    simpa [Phase.concluded?] using hr
  | latePausing hw hd | lateAsking hw hd => simp [Call.expires, hw, hd] at hx
  | _ => exact hallow.elim

theorem Fits.of_settled {o : Outcome} (h : (settled o).Fits k v)
    (hroom : 0 < v.world.state.cache.capacity) : (settled o).Fits k (after k v i c s' p) := by
  have hallow := h.allows i c l hturn.call hl hk
  have hst := hsound.stands i c hturn.call
  have hcontains := h.contains honly hturn.call
  have hn : v.executions = 1 := h.executions
  have hr : v.results = [o] := h.results
  have ht := hturn.transition
  obtain ⟨r, q, began⟩ := c
  cases ht with
  | find hx hs =>
    exact fits_after hturn honly hn (by simpa [Phase.concluded?] using h.results)
      (fun _ _ _ => trivial)
      ⟨h.kept.1, .inl (hturn.cache (hcontains rfl))⟩
  | begin hx =>
    -- the new leader would have found the result
    cases hl
    obtain ⟨x, hin⟩ := Cache.contains_iff.mp (hcontains rfl)
    exact absurd (hk ▸ hx) (Cache.get?_ne_none hin)
  | record hs =>
    exact fits_after hturn honly hn (by simpa [Phase.concluded?] using h.results)
      (fun _ _ _ => trivial)
      (kept_holding hturn h.kept.1 hl hk)
  | @store m o' =>
    cases hl
    have ho : o' = o := by simpa [hr] using hst.2 hk
    refine fits_after hturn honly hn (by simpa [Phase.concluded?] using h.results)
      (fun _ _ _ => trivial)
      ⟨h.kept.1, .inl (Cache.contains_iff.mpr ?_)⟩
    have hok := h.kept.1
    rw [← ho] at hok
    cases o' with
    | error f => cases hok
    | ok x => exact ⟨x, hk ▸ Cache.mem_insert_self hroom l.route.key x⟩
  | publish hs =>
    exact fits_after hturn honly hn (by simpa [Phase.concluded?] using h.results)
      (fun _ hlead => by cases hlead)
      ⟨h.kept.1, .inl (hturn.cache (hcontains rfl))⟩
  | _ => exact hallow.elim

end Leader

end WorkStage

/-! ### Runs -/

namespace World

/-- The event drops the entry of the key from the cache. -/
def evicts (e : Setup) (k : Fingerprint) (w : World) (ev : Event) : Bool :=
  w.state.cache.contains k && !(w.apply e ev).state.cache.contains k

/-- The event makes a leader of the key give up because its time limit has run out. -/
def leaderExpires (k : Fingerprint) (w : World) : Event → Bool
  | .move i =>
    (w.calls[i]?).any fun c => (c.phase.lead?).any (·.route.key = k) && c.expires w.state
  | .wait _ => false

theorem capacity_apply (e : Setup) (w : World) (ev : Event) :
    (w.apply e ev).state.cache.capacity = w.state.cache.capacity := by
  cases ev with
  | wait ms => rfl
  | move i =>
    rcases w.move_cases e i with hm | ⟨c, s', p, -, -, ht, hm⟩
    · rw [apply, hm]
    · rw [apply, hm]
      rcases ht.cache_cases with hs | ⟨l, o, -, -, rfl⟩
      · rw [hs]
      · cases o with
        | error f => rfl
        | ok x => exact Cache.capacity_insert _ _ _

theorem Sound.only {e : Setup} {good : Fingerprint → Outcome → Prop} {late : Prop} {w : World}
    (h : w.Sound e good late) {k : Fingerprint} {i : Nat} {l : Lead} (hl : w.lead? i = some l)
    (hk : l.route.key = k) : WorkStage.Only k w i := by
  intro j d m hj hd hm hmk
  have hlead := (w.lead?_of_call hd).trans hm
  obtain ⟨_, _, _, hleads⟩ := h.leads hl
  obtain ⟨_, _, _, hleads'⟩ := h.leads hlead
  exact hj (h.alone j i m l hlead hl (by rw [hleads'.key, hleads.key, hmk, hk]))

/-- Nobody leads a key that is not under way. -/
theorem Sound.only_of_free {e : Setup} {good : Fingerprint → Outcome → Prop} {late : Prop}
    {w : World} (h : w.Sound e good late) {k : Fingerprint}
    (hfree : ∀ t, (k, t) ∉ w.state.flights.underWay) (i : Nat) : WorkStage.Only k w i := by
  intro j d m _ hd hm hmk
  obtain ⟨_, _, _, hleads⟩ := h.leads ((w.lead?_of_call hd).trans hm)
  have hkey : m.leader.key = k := hleads.key.trans hmk
  exact hfree m.leader.ticket (hkey ▸ hleads.underWay)

end World

namespace Watch

open World (Event)
open WorkStage (Succeeds)

/-- The work of the key has been done at most once so far. -/
structure Once (e : Setup) (k : Fingerprint) (v : Watch) : Prop where
  honest : v.Honest e k
  room : 0 < v.world.state.cache.capacity
  succeeds : ∀ c ∈ v.world.calls, Succeeds e k c.request
  stage : ∃ st : WorkStage, st.Fits k v

theorem once_start {e : Setup} {k : Fingerprint} {rs : List Request}
    (hwork : ∀ r ∈ rs, Succeeds e k r) : Once e k { world := .start e rs } where
  honest := honest_start e k rs
  room := Nat.le_max_right _ _
  succeeds c hc := by
    obtain ⟨r, hr, rfl⟩ := List.mem_map.mp hc
    exact hwork r hr
  stage := by
    refine ⟨.untouched, rfl, rfl, fun i c l hc hl => ?_, trivial⟩
    rw [(World.calls_start hc).2] at hl
    cases hl

variable {e : Setup} {k : Fingerprint} {v : Watch}

theorem Once.stage_move (h : v.Once e k) {i : Nat} {c : Call} {s' : State} {p : Phase}
    (hturn : WorkStage.Turn e k v i c s' p)
    (hx : ∀ l, c.phase.lead? = some l → l.route.key = k → c.expires v.world.state = false) :
    ∃ st : WorkStage, st.Fits k (WorkStage.after k v i c s' p) := by
  have hsound := h.honest.sound
  have hwork := h.succeeds c (List.mem_of_getElem? hturn.call)
  obtain ⟨st, hst⟩ := h.stage
  by_cases hbefore : ∀ l, c.phase.lead? = some l → l.route.key ≠ k
  · by_cases hafter : ∀ l, p.lead? = some l → l.route.key ≠ k
    · exact ⟨st, hst.bystander hturn hbefore hafter⟩
    · simp only [not_forall, not_not] at hafter
      obtain ⟨l, hl, hk⟩ := hafter
      rcases hturn.transition.flights_cases with
        ⟨-, hsame⟩ | ⟨m, hnone, rfl, -, hfree, -⟩ | ⟨-, -, -, hnone, -, -⟩
      · exact absurd hk (hbefore l (hsame ▸ hl))
      · cases hl
        exact ⟨st, hst.lead hturn (hsound.only_of_free (hk ▸ hfree) i) hnone⟩
      · cases hnone.symm.trans hl
  · simp only [not_forall, not_not] at hbefore
    obtain ⟨l, hl, hk⟩ := hbefore
    have honly := hsound.only ((World.lead?_of_call hturn.call).trans hl) hk
    cases st with
    | untouched =>
      exact WorkStage.Fits.of_untouched hturn honly hsound hl hk hst hwork (hx l hl hk)
    | working => exact WorkStage.Fits.of_working hturn honly hsound hl hk hst hwork (hx l hl hk)
    | settled o => exact ⟨_, WorkStage.Fits.of_settled hturn honly hsound hl hk hst h.room⟩

theorem Once.move (h : v.Once e k) (i : Nat) (hkept : v.world.evicts e k (.move i) = false)
    (hlead : v.world.leaderExpires k (.move i) = false) : (v.apply e k (.move i)).Once e k := by
  refine ⟨h.honest.move i, ?_, fun c hc => ?_, ?_⟩
  · rw [world_apply, World.capacity_apply]
    exact h.room
  · rw [world_apply] at hc
    have hmem := World.requests_apply e v.world (.move i) ▸ List.mem_map_of_mem hc
    obtain ⟨d, hd, hreq⟩ := List.mem_map.mp hmem
    exact hreq ▸ h.succeeds d hd
  · rcases v.apply_move_cases e k i with ⟨hv, -⟩ | ⟨c, s', p, hc, -, ht, hm, hv⟩
    · rw [hv]
      exact h.stage
    · rw [hv, hm]
      have hcache : v.world.state.cache.contains k = true → s'.cache.contains k = true := by
        simpa [World.evicts, World.apply, hm] using hkept
      refine h.stage_move ⟨hc, ht, hcache⟩ fun l hl hk => ?_
      simpa [World.leaderExpires, hc, hl, hk] using hlead

theorem Once.apply (h : v.Once e k) {ev : Event} (hkept : v.world.evicts e k ev = false)
    (hlead : v.world.leaderExpires k ev = false) : (v.apply e k ev).Once e k := by
  cases ev with
  | move i => exact h.move i hkept hlead
  | wait ms =>
    obtain ⟨st, hst⟩ := h.stage
    refine ⟨h.honest.apply (.wait ms), h.room, h.succeeds, st, hst.executions, hst.results,
      hst.allows, ?_⟩
    have hkept := hst.kept
    cases st <;> exact hkept

/-- The event neither drops the entry of the key nor makes one of its leaders give up. -/
def Undisturbed (e : Setup) (k : Fingerprint) (w : World) (ev : Event) : Prop :=
  w.evicts e k ev = false ∧ w.leaderExpires k ev = false

instance (e : Setup) (k : Fingerprint) (w : World) (ev : Event) :
    Decidable (Undisturbed e k w ev) :=
  inferInstanceAs (Decidable (_ ∧ _))

theorem once_run {rs : List Request} {history : List Event} (hwork : ∀ r ∈ rs, Succeeds e k r)
    (hquiet : Along (World.apply e) (Undisturbed e k) (World.start e rs) history) :
    (run e k rs history).Once e k :=
  History.foldl_invariant (once_start hwork) (fun _ _ h hev => h.apply hev.1 hev.2)
    (along_world hquiet)

theorem Once.executions_le (h : v.Once e k) : v.executions ≤ 1 := by
  obtain ⟨st, hst⟩ := h.stage
  rw [hst.executions]
  cases st <;> simp

theorem Once.results_eq (h : v.Once e k) {o : Outcome} (ho : o ∈ v.results) :
    v.results = [o] ∧ o.isOk = true := by
  obtain ⟨st, hst⟩ := h.stage
  rw [hst.results] at ho ⊢
  cases st with
  | untouched | working => cases ho
  | settled o' =>
    cases List.mem_singleton.mp ho
    exact ⟨rfl, hst.kept.1⟩

/-- While the entry of the key stays and none of its leaders gives up, successful work is done at
most once. Every served call has the one result at its end, unless its own time limit ran out
while it followed, and every run can go on until all calls are done. -/
theorem success_computed_once {rs : List Request} {history : List Event}
    (hwork : ∀ r ∈ rs, Succeeds e k r)
    (hquiet : Along (World.apply e) (Undisturbed e k) (World.start e rs) history) :
    (run e k rs history).executions ≤ 1 ∧
    (∀ i ∈ (run e k rs history).served, ∀ r o, rs[i]? = some r → .ofRequest r = k →
      ((World.start e rs).run e history).outcome? i = some o →
      ((run e k rs history).results = [o] ∧ o.isOk = true) ∨
      (i ∈ (run e k rs history).late ∧ o = .error (Call.timeoutFailure r.options))) ∧
    ∃ more, Along (World.apply e) (fun w ev => w.expires ev = false)
        ((World.start e rs).run e history) more ∧
      ∀ i r, rs[i]? = some r → ((World.start e rs).run e (history ++ more)).outcome? i ≠ none := by
  have hone := once_run hwork hquiet
  refine ⟨hone.executions_le, fun i hi r o hr hkey ho => ?_, World.exists_done e rs history⟩
  have hworld : (run e k rs history).world = (World.start e rs).run e history :=
    world_foldl e k _ history
  obtain ⟨c, hc, hco⟩ := Option.bind_eq_some_iff.mp ho
  cases Option.some.inj ((World.request_of_run hc).symm.trans hr)
  have hinside := hone.honest.inside i hi c (hworld ▸ hc)
  rw [Call.phase_of_outcome? hco] at hinside
  rcases hinside with hnoted | hlate
  · exact .inl (hone.results_eq (hnoted hkey))
  · exact .inr hlate

/-! ### A follower in a hurry -/

namespace Hurry

/-- The validator takes five seconds. -/
def setup : Setup := { validator := some fun _ => { delayMs := 5000 } }

def patient : Request := ⟨"a=b", "siem", "siem", {}⟩

def hurried : Request := ⟨"a=b", "siem", "siem", { timeoutMs := 1000 }⟩

/-- The first call leads and asks the validator, the second follows and gives up after a second;
the first goes on when the validator has answered. -/
def history : List Event :=
  [0, 0, 0, 0, 0, 0, 0, 1, 1, 1, 1].map .move ++ [.wait 1000, .move 1, .move 1, .wait 4000] ++
    [0, 0, 0, 0, 0].map .move

abbrev key : Fingerprint := .ofRequest patient

abbrev requests : List Request := [patient, hurried]

abbrev watch : Watch := run setup key requests history

abbrev world : World := (World.start setup requests).run setup history

theorem alike : Fingerprint.Alike hurried patient := by
  constructor <;> rfl

theorem facts : Succeeds setup key patient ∧ (Call.route setup patient).isOk = true ∧
    Along (World.apply setup) (Undisturbed setup key) (World.start setup requests) history ∧
    watch.served = [0, 1] ∧ watch.late = [1] ∧ watch.results.length = 1 ∧
    watch.results.all (·.isOk) = true ∧ (world.outcome? 0).any (·.isOk) = true ∧
    (world.outcome? 1).any (!·.isOk) = true := by
  -- one evaluation after the other, so that only one of them is held in memory
  have hwork : Succeeds setup key patient ∧ (Call.route setup patient).isOk = true := by
    decide +kernel
  have hwatch : Along (World.apply setup) (Undisturbed setup key) (World.start setup requests)
        history ∧ watch.served = [0, 1] ∧ watch.late = [1] ∧ watch.results.length = 1 ∧
      watch.results.all (·.isOk) = true := by
    decide +kernel
  have hworld : (world.outcome? 0).any (·.isOk) = true ∧
      (world.outcome? 1).any (!·.isOk) = true := by
    decide +kernel
  obtain ⟨hquiet, hserved, hlate, hlength, hall⟩ := hwatch
  exact ⟨hwork.1, hwork.2, hquiet, hserved, hlate, hlength, hall, hworld⟩

theorem succeeds : ∀ r ∈ requests, Succeeds setup key r := by
  obtain ⟨hpatient, hroute, -⟩ := facts
  cases hrt : Call.route setup patient with
  | error f => simp [hrt, Except.isOk, Except.toBool] at hroute
  | ok rt =>
    intro r hr
    rcases List.mem_pair.mp hr with rfl | rfl
    · exact hpatient
    · exact hpatient.of_alike alike hrt

/-- The second call is served while nothing disturbs the key, and it does not get the result. -/
theorem hurried_follower_misses_result :
    (∀ r ∈ requests, Fingerprint.ofRequest r = key ∧ Succeeds setup key r) ∧
    Along (World.apply setup) (Undisturbed setup key) (World.start setup requests) history ∧
    1 ∈ watch.served ∧ watch.results.length = 1 ∧
    ∃ o, world.outcome? 1 = some o ∧ o ∉ watch.results := by
  obtain ⟨-, -, hquiet, hserved, -, hlength, hall, -, hmissed⟩ := facts
  refine ⟨fun r hr => ⟨?_, succeeds r hr⟩, hquiet, by simp [hserved], hlength, ?_⟩
  · rcases List.mem_pair.mp hr with rfl | rfl
    · rfl
    · exact Fingerprint.ofRequest_eq_of_alike alike
  · obtain ⟨o, ho, hbad⟩ := (Option.any_eq_true _ _).mp hmissed
    refine ⟨o, ho, fun hin => ?_⟩
    have hok := List.all_eq_true.mp hall o hin
    simp [hok] at hbad

/-- The first call has the one result, and the second has its own time limit. -/
theorem patient_leader_has_result :
    watch.executions ≤ 1 ∧
    (∃ o, world.outcome? 0 = some o ∧ watch.results = [o] ∧ o.isOk = true) ∧
    world.outcome? 1 = some (.error (.timeout 1000)) := by
  obtain ⟨-, -, hquiet, hserved, hlate, -, -, hdone, hmissed⟩ := facts
  obtain ⟨hone, hresult, -⟩ := success_computed_once succeeds hquiet
  refine ⟨hone, ?_, ?_⟩
  · obtain ⟨o, ho, -⟩ := (Option.any_eq_true _ _).mp hdone
    rcases hresult 0 (by simp [hserved]) patient o rfl rfl ho with h | ⟨h, -⟩
    · exact ⟨o, ho, h⟩
    · simp [hlate] at h
  · obtain ⟨o, ho, hbad⟩ := (Option.any_eq_true _ _).mp hmissed
    have hkey := Fingerprint.ofRequest_eq_of_alike alike
    rcases hresult 1 (by simp [hserved]) hurried o rfl hkey ho with ⟨-, hok⟩ | ⟨-, rfl⟩
    · simp [hok] at hbad
    · exact ho

end Hurry

end Watch

end RuleExchange.Engine
