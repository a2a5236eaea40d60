import Mathlib.Algebra.GroupWithZero.Nat
import RuleExchange.Proofs.WorldSound

/-! Calls are never stuck. A call that is not done can take its next step, now or once the
clock has reached the time for which it waits, unless it follows a leader that is still at
work; that leader can then take a step. Each step brings its call closer to its end, so all
calls can be brought to their ends, and no time limit has to run out on the way. -/

namespace RuleExchange.Engine

open History (Along)

namespace Call

/-- How many steps a call is away from its end at most. -/
def rank (c : Call) : Nat :=
  let consulting := 2 * Remote.attemptsFor c.request.options.retryAttempts
  match c.phase with
  | .queued | .finished _ => 0
  | .answered _ => 1
  | .following _ _ | .publishing _ _ _ => 2
  | .recorded _ _ => 3
  | .concluded _ _ => 4
  | .asking _ _ made _ _ => 5 + (consulting - 2 * made)
  | .pausing _ _ made _ => 6 + (consulting - 2 * made)
  | .executing _ _ => 7 + consulting
  | .leading _ => 8 + consulting
  | .entered _ _ => 9 + consulting
  | .missed _ => 10 + consulting
  | .resolved _ => 11 + consulting
  | .arrived => 12 + consulting

/-- The time for which a call waits. -/
def wakes (c : Call) : Nat :=
  match c.phase with
  | .executing _ ready => ready
  | .pausing _ _ _ wake | .asking _ _ _ _ wake => wake
  | _ => 0

variable {e : Setup} {s s' : State} {r : Request} {p p' : Phase}

theorem Transition.ne_queued (ht : Transition e s r p s' p') : p' ≠ .queued := by
  cases ht <;> exact Phase.noConfusion

theorem Transition.rank_lt (ht : Transition e s r p s' p') (began began' : Option Nat) :
    rank ⟨r, p', began'⟩ < rank ⟨r, p, began⟩ := by
  cases ht <;> simp only [rank] <;> omega

theorem phase_of_outcome? {c : Call} {o : Outcome} (h : c.outcome? = some o) :
    c.phase = .finished o := by
  unfold outcome? at h
  split at h
  · rename_i hp
    cases h
    exact hp
  · cases h

/-- A call for which it is time can go on, or it follows a leader that has left nothing so far. -/
theorem steps_or_follows {c : Call} (hq : c.phase ≠ .queued) (ho : c.outcome? = none)
    (hw : c.wakes ≤ s.now) :
    (c.step e s ≠ none ∧ c.expires s = false) ∨
      ∃ t d, c.phase = .following t d ∧ s.flights.result? t = none := by
  obtain ⟨r, p, began⟩ := c
  cases p with
  | queued => exact absurd rfl hq
  | arrived =>
    refine .inl ⟨?_, rfl⟩
    cases hr : route e r <;> simp [step, hr]
  | resolved rt =>
    refine .inl ⟨?_, rfl⟩
    rcases s.lookUp_cases rt.key with ⟨x, s₁, -, -, hl⟩ | ⟨-, hl⟩ <;> simp [step, hl]
  | missed rt =>
    refine .inl ⟨?_, rfl⟩
    rcases s.enter_cases rt.pair with ⟨ms, s₁, -, hl⟩ | ⟨p, s₁, -, hl⟩ <;> simp [step, hl]
  | entered rt p =>
    refine .inl ⟨?_, rfl⟩
    rcases s.flights.join_cases rt.key with ⟨t, -, hj⟩ | ⟨-, hj⟩ <;> simp [step, hj]
  | following t d =>
    cases hr : s.flights.result? t with
    | none => exact .inr ⟨t, d, rfl, hr⟩
    | some v =>
      refine .inl ⟨?_, by simp [expires, hr]⟩
      cases v <;> simp [step, hr]
  | leading l =>
    refine .inl ⟨?_, rfl⟩
    rcases s.lookUp_cases l.route.key with ⟨x, s₁, -, -, hl⟩ | ⟨-, hl⟩ <;> simp [step, hl]
  | executing l ready =>
    have hw : ready ≤ s.now := hw
    exact .inl ⟨by simp [step, hw], by simp [expires, Nat.not_lt.mpr hw]⟩
  | pausing l d made wake =>
    have hw : wake ≤ s.now := hw
    refine .inl ⟨?_, by simp [expires, Nat.not_lt.mpr hw]⟩
    cases hv : e.validator <;> simp [step, hv, hw]
  | asking l d made answer wake =>
    have hw : wake ≤ s.now := hw
    exact .inl ⟨by simp [step, hw], by simp [expires, Nat.not_lt.mpr hw]⟩
  | concluded | recorded | publishing | answered =>
    exact .inl ⟨by simp [step], rfl⟩
  | finished => cases ho

end Call

namespace World

open Call

variable {e : Setup} {good : Fingerprint → Outcome → Prop} {late : Prop} {w : World}

/-- What the whole world is away from its end. -/
def rank (w : World) : Nat := (w.calls.map (·.rank)).sum

/-- No call waits for a worker. -/
def Underway (w : World) : Prop := ∀ (i : Nat) (c : Call), w.calls[i]? = some c → c.phase ≠ .queued

theorem underway_start (e : Setup) (rs : List Request) : (start e rs).Underway := by
  intro i c hc
  rw [(calls_start hc).2]
  exact Phase.noConfusion

theorem Underway.apply (h : w.Underway) (e : Setup) (ev : Event) : (w.apply e ev).Underway := by
  cases ev with
  | wait ms => exact h
  | move i =>
    rcases w.move_cases e i with hm | ⟨c, s', p, hc, -, ht, hm⟩
    · rw [World.apply, hm]
      exact h
    · rw [World.apply, hm]
      intro j d hd
      rw [getElem?_moved hc] at hd
      split at hd
      · cases hd
        exact ht.ne_queued
      · exact h j d hd

/-- A call that does not follow can go on after some time. -/
theorem steps_after_wait {c : Call} (e : Setup) (w : World) (hq : c.phase ≠ .queued)
    (ho : c.outcome? = none) (hf : ∀ t d, c.phase ≠ .following t d) :
    ∃ ms, c.step e (w.wait ms).state ≠ none ∧ c.expires (w.wait ms).state = false := by
  refine ⟨c.wakes, ?_⟩
  have hw : c.wakes ≤ (w.wait c.wakes).state.now := Nat.le_add_left _ _
  rcases steps_or_follows hq ho hw with h | ⟨t, d, hp, -⟩
  · exact h
  · exact absurd hp (hf t d)

/-- While a call is not done, some call can take a step after some time. -/
theorem Sound.exists_step (h : w.Sound e good late) (hu : w.Underway) {i : Nat} {c : Call}
    (hc : w.calls[i]? = some c) (ho : c.outcome? = none) :
    ∃ (j : Nat) (d : Call) (ms : Nat), w.calls[j]? = some d ∧
      d.step e (w.wait ms).state ≠ none ∧ d.expires (w.wait ms).state = false := by
  by_cases hf : ∀ t d, c.phase ≠ .following t d
  · obtain ⟨ms, hs⟩ := steps_after_wait e w (hu i c hc) ho hf
    exact ⟨i, c, ms, hc, hs⟩
  · simp only [not_forall, not_not] at hf
    obtain ⟨t, dl, hp⟩ := hf
    have hst := h.stands i c hc
    rw [hp] at hst
    rcases hst with hk | ⟨o, hres, -⟩
    · -- the leader with this ticket does not follow anybody
      obtain ⟨j, l, hl, -⟩ := h.led _ _ hk
      obtain ⟨d, hd, hdl⟩ := exists_of_lead? hl
      have hdo : d.outcome? = none := by
        rw [Option.eq_none_iff_forall_ne_some]
        intro o hfin
        simp [phase_of_outcome? hfin, Phase.lead?] at hdl
      have hdf (t' dl' : Nat) : d.phase ≠ .following t' dl' := by
        intro hp'
        simp [hp', Phase.lead?] at hdl
      obtain ⟨ms, hs⟩ := steps_after_wait e w (hu j d hd) hdo hdf
      exact ⟨j, d, ms, hd, hs⟩
    · have hw : c.wakes ≤ (w.wait 0).state.now := by simp [wakes, hp]
      rcases steps_or_follows (hu i c hc) ho hw with hs | ⟨t', dl', hp', hnone⟩
      · exact ⟨i, c, 0, hc, hs⟩
      · cases hp.symm.trans hp'
        cases hnone.symm.trans hres

theorem rank_move_lt {i : Nat} {c : Call} (hc : w.calls[i]? = some c)
    (hs : c.step e w.state ≠ none) : (w.move e i).rank < w.rank := by
  obtain ⟨s', p, -, ht, hm⟩ := move_of_step hc hs
  rw [hm]
  exact History.sum_map_set_lt Call.rank hc (ht.rank_lt _ _)

/-! ### Any run -/

/-- A world in which the work under way is led by the right calls, whatever they conclude. -/
abbrev Orderly (e : Setup) (w : World) : Prop := w.Sound e (fun _ _ => True) True

theorem Orderly.apply (h : w.Orderly e) (ev : Event) : (w.apply e ev).Orderly e := by
  cases ev with
  | move i => exact h.move i (fun _ => trivial) fun _ _ _ _ _ _ => trivial
  | wait ms => exact h.wait ms

/-- From an orderly world all calls can be brought to their ends, and no time limit runs out. -/
theorem Orderly.exists_finish (h : w.Orderly e) (hu : w.Underway) :
    ∃ more, Along (World.apply e) (fun w ev => w.expires ev = false) w more ∧
      ∀ c ∈ (w.run e more).calls, c.outcome? ≠ none := by
  induction hn : w.rank using Nat.strongRecOn generalizing w with
  | ind n ih =>
    subst hn
    by_cases hdone : ∀ c ∈ w.calls, c.outcome? ≠ none
    · exact ⟨[], trivial, hdone⟩
    · simp only [not_forall, not_not] at hdone
      obtain ⟨c, hc, ho⟩ := hdone
      obtain ⟨i, hi⟩ := List.getElem?_of_mem hc
      obtain ⟨j, d, ms, hd, hs, hx⟩ := h.exists_step hu hi ho
      have hlt : ((w.wait ms).move e j).rank < w.rank := rank_move_lt (w := w.wait ms) hd hs
      have hu' : ((w.wait ms).move e j).Underway := (hu.apply e (.wait ms)).apply e (.move j)
      obtain ⟨more, halong, hfin⟩ := ih _ hlt (Orderly.apply (h.wait ms) (.move j)) hu' rfl
      have hmove : (w.wait ms).expires (.move j) = false := by
        rw [expires, show (w.wait ms).calls[j]? = some d from hd]
        exact hx
      exact ⟨.wait ms :: .move j :: more, ⟨rfl, hmove, halong⟩, hfin⟩

theorem orderly_run (e : Setup) (rs : List Request) (history : List Event) :
    ((start e rs).run e history).Orderly e :=
  History.foldl_invariant (sound_start e _ _ rs) (fun _ ev h _ => h.apply ev)
    (History.along_of_forall (P := fun _ _ => True) (fun _ _ => trivial) _ history)

theorem underway_run (e : Setup) (rs : List Request) (history : List Event) :
    ((start e rs).run e history).Underway :=
  History.foldl_invariant (underway_start e rs) (fun _ ev h _ => h.apply e ev)
    (History.along_of_forall (P := fun _ _ => True) (fun _ _ => trivial) _ history)

def outcome? (w : World) (i : Nat) : Option Outcome := (w.calls[i]?).bind (·.outcome?)

/-- Every run can go on until all calls are done. -/
theorem exists_done (e : Setup) (rs : List Request) (history : List Event) :
    ∃ more, Along (World.apply e) (fun w ev => w.expires ev = false)
        ((start e rs).run e history) more ∧
      ∀ i r, rs[i]? = some r → ((start e rs).run e (history ++ more)).outcome? i ≠ none := by
  obtain ⟨more, hmore, hdone⟩ :=
    (orderly_run e rs history).exists_finish (underway_run e rs history)
  refine ⟨more, hmore, fun i r hr => ?_⟩
  have hsame : ((start e rs).run e (history ++ more)).calls.map (·.request) = rs := by
    rw [requests_run]
    simp [start, Function.comp_def]
  rw [← hsame, List.getElem?_map, Option.map_eq_some_iff] at hr
  obtain ⟨c, hc, -⟩ := hr
  rw [outcome?, hc, Option.bind_some]
  rw [run, List.foldl_append] at hc
  exact hdone c (List.mem_of_getElem? hc)

end World

end RuleExchange.Engine
