import RuleExchange.Engine.Schedule
import RuleExchange.Proofs.WorldProgress

/-! A schedule is one of the histories. Whatever the number of workers, the order in which a
schedule lets calls take their steps is a history of a world in which all calls have
arrived: a call that waits for a worker has arrived and not moved yet. What is proved of
all histories is therefore true of single exchanges, of exchanges that run at once and of
batches. -/

namespace RuleExchange.Engine

/-- A call that waits for a worker seen as one that has arrived. -/
def Call.opened (c : Call) : Call :=
  match c.phase with
  | .queued => c.arrive
  | _ => c

def World.opened (w : World) : World := { w with calls := w.calls.map Call.opened }

theorem Call.opened_of_ne {c : Call} (h : c.phase ≠ .queued) : c.opened = c := by
  unfold opened
  split
  · exact absurd ‹_› h
  · rfl

theorem Call.outcome?_opened (c : Call) : c.opened.outcome? = c.outcome? := by
  unfold opened
  split
  · rename_i h
    simp [outcome?, arrive, h]
  · rfl

theorem World.outcomes_opened (w : World) : w.opened.outcomes = w.outcomes := by
  simp [outcomes, opened, Function.comp_def, Call.outcome?_opened]

/-- A move is a move of the opened world too, or it is none at all. -/
theorem World.opened_move (e : Setup) (w : World) (i : Nat) :
    ∃ history, (w.move e i).opened = w.opened.run e history := by
  rcases w.move_cases e i with hm | ⟨c, s', p, hc, hs, ht, hm⟩
  · exact ⟨[], by rw [hm]; rfl⟩
  · have hq : c.phase ≠ .queued := by
      intro hq
      rw [Call.step, hq] at hs
      cases hs
    have hopen : w.opened.calls[i]? = some c := by
      simp [opened, hc, Call.opened_of_ne hq]
    refine ⟨[.move i], ?_⟩
    have hmove : w.opened.move e i = ⟨s', w.opened.calls.set i (c.go w.state.now p)⟩ := by
      simp [move, hopen, show c.step e w.opened.state = _ from hs]
    rw [hm]
    show _ = w.opened.move e i
    rw [hmove]
    have hgone : (c.go w.state.now p).phase ≠ .queued := ht.ne_queued
    simp [opened, List.map_set, Call.opened_of_ne hgone]

namespace Schedule

/-- The calls without a worker have not begun. -/
structure Fair (s : Schedule) : Prop where
  nodup : s.waiting.Nodup
  queued : ∀ i ∈ s.waiting, ∀ c, s.world.calls[i]? = some c → c.phase = .queued

theorem Fair.of_eq {s s' : Schedule} (h : s.Fair) (hw : s'.world = s.world)
    (hq : s'.waiting = s.waiting) : s'.Fair := by
  refine ⟨hq ▸ h.nodup, fun i hi c hc => ?_⟩
  rw [hq] at hi
  rw [hw] at hc
  exact h.queued i hi c hc

/-- A call that gets its worker changes nothing in the opened world. -/
theorem opened_startCall {s : Schedule} {i : Nat}
    (h : ∀ c, s.world.calls[i]? = some c → c.phase = .queued) :
    (s.startCall i).world.opened = s.world.opened := by
  unfold startCall
  split
  · rename_i c hc
    replace hc : s.world.calls[i]? = some c := hc
    have hcalls : (s.world.calls.set i c.arrive).map Call.opened =
        s.world.calls.map Call.opened := by
      apply List.ext_getElem?
      intro j
      rw [List.getElem?_map, List.getElem?_map, World.getElem?_moved hc]
      split
      · rename_i hj
        simp [hj, hc, Call.opened, h c hc, Call.arrive]
      · rfl
    simp only [World.opened, hcalls]
  · rfl

theorem waiting_startCall (s : Schedule) (i : Nat) : (s.startCall i).waiting = s.waiting := by
  unfold startCall
  split <;> rfl

theorem calls_startCall_of_ne (s : Schedule) {i j : Nat} (h : j ≠ i) :
    (s.startCall i).world.calls[j]? = s.world.calls[j]? := by
  unfold startCall
  split
  · exact List.getElem?_set_ne (Ne.symm h)
  · rfl

theorem freeWorker_keeps {s : Schedule} (h : s.Fair) :
    s.freeWorker.Fair ∧ s.freeWorker.world.opened = s.world.opened := by
  unfold freeWorker
  split
  · exact ⟨h, rfl⟩
  · rename_i i rest hq
    have hnodup := h.nodup
    rw [hq, List.nodup_cons] at hnodup
    have hqueued : ∀ c, s.world.calls[i]? = some c → c.phase = .queued :=
      h.queued i (by simp [hq])
    refine ⟨Fair.of_eq (s := { s with waiting := rest }.startCall i) ⟨?_, fun j hj c hc => ?_⟩
      rfl rfl, opened_startCall (s := { s with waiting := rest }) hqueued⟩
    · rw [waiting_startCall]
      exact hnodup.2
    · rw [waiting_startCall] at hj
      have hji : j ≠ i := by
        rintro rfl
        exact hnodup.1 hj
      rw [calls_startCall_of_ne _ hji] at hc
      exact h.queued j (by simp [hq, hj]) c hc

/-- One schedule leads to another by a history of the opened world. -/
def Leads (e : Setup) (s s' : Schedule) : Prop :=
  s'.Fair ∧ ∃ history, s'.world.opened = s.world.opened.run e history

theorem leads_of_eq {e : Setup} {s s' : Schedule} (h : s'.Fair)
    (hw : s'.world.opened = s.world.opened) : Leads e s s' := ⟨h, [], hw⟩

theorem Leads.trans {e : Setup} {s s' s'' : Schedule} (h : Leads e s s') (h' : Leads e s' s'') :
    Leads e s s'' := by
  obtain ⟨-, before, hb⟩ := h
  obtain ⟨hf, after, ha⟩ := h'
  refine ⟨hf, before ++ after, ?_⟩
  rw [ha, hb, World.run, World.run, World.run, List.foldl_append]

theorem move_leads {e : Setup} {s : Schedule} (h : s.Fair) {i : Nat} {c : Call}
    (hc : s.world.calls[i]? = some c) (hs : c.step e s.world.state ≠ none) :
    Leads e s { s with world := s.world.move e i } := by
  refine ⟨⟨h.nodup, fun j hj d hd => ?_⟩, World.opened_move e s.world i⟩
  obtain ⟨s', p, -, -, hm⟩ := World.move_of_step hc hs
  replace hd : (s.world.move e i).calls[j]? = some d := hd
  rw [hm, World.getElem?_moved hc] at hd
  split at hd
  · rename_i hji
    have hq := h.queued j hj c (hji ▸ hc)
    simp [Call.step, hq] at hs
  · exact h.queued j hj d hd

theorem resume_leads {e : Setup} {s : Schedule} (h : s.Fair) (i : Nat) (rest : List Nat) :
    Leads e s (s.resume e i rest) := by
  unfold resume
  split
  · exact leads_of_eq (h.of_eq rfl rfl) rfl
  · rename_i c hc
    split
    · split
      · have hkept : (setAlarms { s with ready := rest } i c.alarms).Fair := h.of_eq rfl rfl
        obtain ⟨hf, hw⟩ := freeWorker_keeps hkept
        exact leads_of_eq hf hw
      · exact leads_of_eq (h.of_eq rfl rfl) rfl
    · rename_i s₁ after hs
      have hmove : Leads e s { s with world := s.world.move e i } :=
        move_leads h hc (by simp [hs])
      refine hmove.trans ?_
      split <;> split <;> exact leads_of_eq (hmove.1.of_eq rfl rfl) rfl

theorem ring_leads {e : Setup} {s : Schedule} (h : s.Fair) (t : Nat) : Leads e s (s.ring t) :=
  ⟨⟨h.nodup, h.queued⟩, [.wait (t - s.now)], rfl⟩

theorem turns_lead (e : Setup) (fuel : Nat) {s : Schedule} (h : s.Fair) :
    Leads e s (turns e fuel s) := by
  induction fuel generalizing s with
  | zero => exact leads_of_eq h rfl
  | succ fuel ih =>
    unfold turns
    split
    · rename_i i rest _
      have hstep := resume_leads (e := e) h i rest
      exact hstep.trans (ih hstep.1)
    · split
      · rename_i t _
        have hstep := ring_leads (e := e) h t
        exact hstep.trans (ih hstep.1)
      · exact leads_of_eq h rfl

/-- The calls of a schedule before its first turn. -/
def arrivals (workers : Nat) (rs : List Request) : List Call :=
  rs.zipIdx.map fun (r, i) =>
    { request := r, phase := if i < workers then .arrived else .queued }

theorem getElem?_arrivals (workers : Nat) (rs : List Request) (i : Nat) :
    (arrivals workers rs)[i]? =
      (rs[i]?).map fun r =>
        { request := r, phase := if i < workers then .arrived else .queued } := by
  simp [arrivals, Function.comp_def]

theorem map_opened_arrivals (workers : Nat) (rs : List Request) :
    (arrivals workers rs).map Call.opened = rs.map fun r => { request := r } := by
  apply List.ext_getElem?
  intro i
  rw [List.getElem?_map, getElem?_arrivals, List.getElem?_map, Option.map_map]
  congr 1
  funext r
  by_cases hi : i < workers <;> simp [hi, Call.opened, Call.arrive]

theorem le_of_mem_drop_range {workers n i : Nat} (h : i ∈ (List.range n).drop workers) :
    workers ≤ i := by
  obtain ⟨j, hj⟩ := List.mem_iff_getElem?.mp h
  rw [List.getElem?_drop] at hj
  have := List.getElem?_eq_some_iff.mp hj
  simp at this
  omega

/-- A schedule from any state is a history of the world in which all its calls have arrived. -/
theorem exists_history (e : Setup) (s : State) (workers : Nat) (rs : List Request) :
    ∃ history,
      let w := World.run e ⟨s, rs.map fun r => { request := r }⟩ history
      (run e s workers rs).state = w.state ∧ (run e s workers rs).outcomes = w.outcomes := by
  let start : Schedule :=
    { world := ⟨s, arrivals workers rs⟩, ready := (List.range rs.length).take workers
      waiting := (List.range rs.length).drop workers }
  have hfair : start.Fair := by
    refine ⟨List.nodup_range.sublist (List.drop_sublist _ _), fun i hi c hc => ?_⟩
    replace hc : (arrivals workers rs)[i]? = some c := hc
    rw [getElem?_arrivals, Option.map_eq_some_iff] at hc
    obtain ⟨r, -, rfl⟩ := hc
    exact if_neg (Nat.not_lt.mpr (le_of_mem_drop_range hi))
  have hopen : start.world.opened = ⟨s, rs.map fun r => { request := r }⟩ := by
    simp only [start, World.opened, map_opened_arrivals]
  obtain ⟨-, history, hrun⟩ :=
    turns_lead e ((rs.map turnsFor).foldr (· + ·) 0 * (rs.length + 1)) hfair
  rw [hopen] at hrun
  refine ⟨history, ?_⟩
  rw [← hrun]
  exact ⟨rfl, (World.outcomes_opened _).symm⟩

end Schedule

end RuleExchange.Engine
