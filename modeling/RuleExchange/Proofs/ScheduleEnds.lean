import Mathlib.Algebra.Order.BigOperators.Group.List
import RuleExchange.Proofs.ScheduleOrder

/-! A schedule brings all its calls to their ends. Each turn is paid for: a step brings its call
closer to its end, and between two steps a call leaves the line at most once and comes back at
most once, because it comes back only when it can take its step. The turns that a schedule is
given are therefore enough, and what it leaves is the end of a history in which all calls are
done. -/

namespace RuleExchange.Engine

theorem Call.rank_opened_pos {c : Call} (ho : c.outcome? = none) : 0 < c.opened.rank := by
  obtain ⟨r, p, began⟩ := c
  cases p with
  | finished => cases ho
  | _ => simp [opened, arrive, rank]

/-- Nobody waits for a worker when all calls are done. -/
theorem World.opened_of_done {w : World} (h : ∀ c ∈ w.calls, c.outcome? ≠ none) : w.opened = w := by
  have hsame : w.calls.map Call.opened = w.calls := by
    refine (List.map_congr_left fun c hc => ?_).trans (List.map_id w.calls)
    refine Call.opened_of_ne fun hq => h c hc ?_
    rw [Call.outcome?, hq]
  rw [World.opened, hsame]

namespace Schedule

variable {e : Setup} {s s' : Schedule}

/-! ### What is left to do -/

/-- Turns that a call takes before its next step. -/
def delay (inLine stuck : Bool) : Phase → Nat
  | .queued => 0
  | .finished _ => if inLine then 1 else 0
  | _ => if inLine then if stuck then 2 else 0 else 1

theorem delay_le (inLine stuck : Bool) (p : Phase) : delay inLine stuck p ≤ 2 := by
  cases inLine <;> cases stuck <;> cases p <;> simp [delay]

/-- A call that gets in line can go on, and one that could go on still can. -/
theorem delay_le_delay {inLine inLine' stuck stuck' : Bool} {p : Phase}
    (hstays : inLine = true → inLine' = true)
    (hdone : ∀ o, p = .finished o → inLine' = true → inLine = true)
    (hgoes : inLine' = true → stuck' = true → inLine = true ∧ stuck = true) :
    delay inLine' stuck' p ≤ delay inLine stuck p := by
  cases p with
  | queued => exact Nat.le_refl _
  | finished o => cases inLine <;> cases inLine' <;> simp_all [delay]
  | _ => cases inLine <;> cases inLine' <;> cases stuck <;> cases stuck' <;> simp_all [delay]

/-- Turns that one call takes until its end. -/
def effort (e : Setup) (s : Schedule) (i : Nat) : Nat :=
  match s.call? i with
  | none => 0
  | some c =>
    3 * c.opened.rank + delay (s.ready.contains i) (c.step e s.world.state).isNone c.phase

/-- Turns until all calls are done. -/
def labor (e : Setup) (s : Schedule) : Nat :=
  ((List.range s.world.calls.length).map (s.effort e)).sum

theorem effort_of_call {i : Nat} {c : Call} (hc : s.call? i = some c) :
    s.effort e i =
      3 * c.opened.rank + delay (s.ready.contains i) (c.step e s.world.state).isNone c.phase := by
  rw [effort, hc]

theorem lt_of_effort_pos {i : Nat} (h : 0 < s.effort e i) : i < s.world.calls.length := by
  by_contra hi
  have hnone : s.call? i = none := List.getElem?_eq_none (Nat.not_lt.mp hi)
  simp [effort, hnone] at h

theorem labor_lt (hlength : s'.world.calls.length = s.world.calls.length)
    (hle : ∀ j, s'.effort e j ≤ s.effort e j) {i : Nat} (hlt : s'.effort e i < s.effort e i) :
    s'.labor e < s.labor e := by
  rw [labor, labor, hlength]
  refine List.sum_lt_sum _ _ (fun j _ => hle j) ⟨i, ?_, hlt⟩
  exact List.mem_range.mpr (lt_of_effort_pos (Nat.zero_lt_of_lt hlt))

theorem done_of_labor_eq_zero (h : s.labor e = 0) : ∀ c ∈ s.world.calls, c.outcome? ≠ none := by
  intro c hc ho
  obtain ⟨i, hi⟩ := List.getElem?_of_mem hc
  have hmem : s.effort e i ∈ (List.range s.world.calls.length).map (s.effort e) :=
    List.mem_map_of_mem (List.mem_range.mpr (List.getElem?_eq_some_iff.mp hi).1)
  have hzero : s.effort e i = 0 := Nat.eq_zero_of_le_zero (h ▸ List.le_sum_of_mem hmem)
  rw [effort_of_call (show s.call? i = some c from hi)] at hzero
  have := Call.rank_opened_pos ho
  omega

theorem delay_out_lt {p : Phase} (hq : p ≠ .queued) : delay false true p < delay true true p := by
  cases p with
  | queued => exact absurd rfl hq
  | _ => simp [delay]

theorem delay_in_lt {p : Phase} (hq : p ≠ .queued) (hf : ∀ o, p ≠ .finished o) (stuck : Bool) :
    delay true false p < delay false stuck p := by
  cases p with
  | queued => exact absurd rfl hq
  | finished o => exact absurd rfl (hf o)
  | _ => simp [delay]

theorem effort_congr {j : Nat} (hcall : s'.call? j = s.call? j)
    (hready : j ∈ s'.ready ↔ j ∈ s.ready) (hstate : s'.world.state = s.world.state) :
    s'.effort e j = s.effort e j := by
  have hline : s'.ready.contains j = s.ready.contains j := by
    rw [Bool.eq_iff_iff, List.contains_iff_mem, List.contains_iff_mem, hready]
  simp only [effort, hcall, hline, hstate]

/-! ### Turns -/

/-- A turn that leaves the schedule proper and brings it closer to its end. -/
structure Progress (e : Setup) (s s' : Schedule) : Prop where
  proper : s'.Proper
  busy : s'.Busy
  labor : s'.labor e < s.labor e

section Turns

variable {i : Nat} {rest : List Nat} {c : Call}

theorem length_startCall (s : Schedule) (k : Nat) :
    (s.startCall k).world.calls.length = s.world.calls.length := by
  unfold startCall
  split <;> simp

theorem length_freeWorker (s : Schedule) :
    s.freeWorker.world.calls.length = s.world.calls.length := by
  unfold freeWorker
  split
  · rfl
  · exact length_startCall _ _

theorem Proper.effort_freeWorker (h : s.Proper) (e : Setup) (j : Nat) :
    s.freeWorker.effort e j = s.effort e j := by
  rcases h.freeWorker_cases with ⟨-, hsame⟩ |
    ⟨k, c, more, -, -, hc, hq, hcall, hready, -, -, -, hstate⟩
  · rw [hsame]
  · by_cases hjk : j = k
    · -- the call that begins can take its first step
      subst hjk
      have hline : s.freeWorker.ready.contains j = true :=
        List.contains_iff_mem.mpr ((hready j).mpr (.inr rfl))
      have hgoes : (c.arrive.step e s.freeWorker.world.state).isNone = false := by
        cases hstep : c.arrive.step e s.freeWorker.world.state with
        | none => exact (Call.blocked_of_step_eq_none hstep).elim
        | some _ => rfl
      have hopened : c.opened = c.arrive := by
        unfold Call.opened
        rw [hq]
      rw [effort_of_call ((hcall j).trans (if_pos rfl)), effort_of_call hc, hline, hgoes, hq,
        hopened]
      rfl
    · exact effort_congr ((hcall j).trans (if_neg hjk)) (by simp [hready, hjk]) hstate

/-- A call that cannot go on leaves the line; if it is done, its worker becomes free. -/
theorem progress_of_stuck (h : s.Proper) (hbusy : s.Busy) (hline : s.ready = i :: rest)
    (hc : s.call? i = some c) (hstuck : c.step e s.world.state = none) :
    Progress e s (s.resume e i rest) := by
  let out := setAlarms { s with ready := rest } i c.alarms
  have hproper : out.Proper := h.leave hline hc hstuck
  have hrest : i ∉ rest := h.not_mem_rest hline
  obtain ⟨d, hd, hq⟩ := h.begun i (by simp [hline])
  cases hc.symm.trans hd
  have hsame (j : Nat) (hj : j ≠ i) : out.effort e j = s.effort e j :=
    effort_congr rfl (by simp [out, setAlarms, hline, hj]) rfl
  have hless : out.effort e i < s.effort e i := by
    have hin : s.ready.contains i = true := by simp [hline]
    have hout : out.ready.contains i = false := by simpa [out, setAlarms] using hrest
    rw [effort_of_call (s := out) hc, effort_of_call hc, hin, hout,
      show c.step e out.world.state = none from hstuck, hstuck]
    exact Nat.add_lt_add_left (delay_out_lt hq) _
  have hall (j : Nat) : out.effort e j ≤ s.effort e j := by
    by_cases hj : j = i
    · exact hj ▸ Nat.le_of_lt hless
    · exact Nat.le_of_eq (hsame j hj)
  have hresume : s.resume e i rest = if c.outcome?.isSome then out.freeWorker else out := by
    simp only [resume, hc, hstuck]
    rfl
  rw [hresume]
  split
  · refine ⟨hproper.freeWorker, hproper.busy_freeWorker, labor_lt (length_freeWorker out) ?_
      (i := i) ?_⟩
    · exact fun j => hproper.effort_freeWorker e j ▸ hall j
    · exact hproper.effort_freeWorker e i ▸ hless
  · rename_i ho
    refine ⟨hproper, fun hw => ?_, labor_lt rfl hall hless⟩
    obtain ⟨j, d, hd, hdq, hj⟩ := hbusy hw
    by_cases hji : j = i
    · cases (hji ▸ hc).symm.trans hd
      exact ⟨j, c, hd, hdq, .inr (by simpa using ho)⟩
    · refine ⟨j, d, hd, hdq, hj.imp_left fun hready => ?_⟩
      show j ∈ rest
      simpa [hline, hji] using hready

namespace Advances

variable {p : Phase}

/-- The other calls are not held up: those that get in line can go on. -/
theorem effort_other (h : Advances e s i c p s') {j : Nat} (hj : j ≠ i) :
    s'.effort e j ≤ s.effort e j := by
  cases hd : s.call? j with
  | none => simp [effort, h.call_other hj, hd]
  | some d =>
    have hd' : s'.call? j = some d := (h.call_other hj).trans hd
    rw [effort_of_call hd, effort_of_call hd']
    refine Nat.add_le_add_left (delay_le_delay ?_ ?_ ?_) _
    · intro hline
      rw [List.contains_iff_mem] at hline ⊢
      exact h.mem_ready hline
    · intro o ho hline
      rw [List.contains_iff_mem] at hline ⊢
      rcases (h.ready j).mp hline with hready | ⟨ticket, d', deadline, -, hd'', hp⟩
      · exact hready
      · cases hd'.symm.trans hd''
        simp [ho] at hp
    · intro hline hstuck
      have hblocked := Call.blocked_of_step_eq_none (Option.isNone_iff_eq_none.mp hstuck)
      rw [List.contains_iff_mem] at hline ⊢
      rcases (h.ready j).mp hline with hready | ⟨ticket, d', deadline, hland, hd'', hp⟩
      · exact ⟨hready, Option.isNone_iff_eq_none.mpr
          (hblocked.of_later h.step.later).step_eq_none⟩
      · -- a follower of the call that has published would have its result
        cases hd'.symm.trans hd''
        have hstep := h.step
        unfold landing at hland
        split at hland
        · rename_i l o held hphase
          cases hland
          rw [hphase] at hstep
          rw [hp] at hblocked
          exact absurd hblocked.1 hstep.result?_of_publishing
        · cases hland

theorem effort_self (h : Advances e s i c p s') (hc : s.call? i = some c)
    (hgoes : c.step e s.world.state ≠ none) : s'.effort e i < s.effort e i := by
  have hopened {d : Call} (hq : d.phase ≠ .queued) : d.opened.rank = d.rank :=
    congrArg Call.rank (Call.opened_of_ne hq)
  have hq : c.phase ≠ .queued := fun hq => hgoes (Call.Blocked.step_eq_none (hq ▸ trivial))
  have hrank : (c.go s.now p).rank < c.rank := h.step.rank_lt _ _
  have hdelay := delay_le (s'.ready.contains i) ((c.go s.now p).step e s'.world.state).isNone p
  rw [effort_of_call hc, effort_of_call h.call_self, hopened hq,
    hopened (d := c.go s.now p) h.step.ne_queued]
  show 3 * (c.go s.now p).rank + delay _ _ p < _
  omega

end Advances

/-- A call that can go on takes its step. -/
theorem progress_of_step (h : s.Proper) (hbusy : s.Busy) (hline : s.ready = i :: rest)
    (hc : s.call? i = some c) (hgoes : c.step e s.world.state ≠ none) :
    Progress e s (s.resume e i rest) := by
  obtain ⟨p, hadvances⟩ := advances_of_step h hline hc hgoes
  have hi : i ∈ s.ready := by simp [hline]
  have hless := hadvances.effort_self hc hgoes
  refine ⟨hadvances.proper h hi hc, hadvances.busy hbusy hi,
    labor_lt hadvances.length (fun j => ?_) hless⟩
  by_cases hj : j = i
  · rw [hj]
    exact Nat.le_of_lt hless
  · exact hadvances.effort_other hj

theorem progress_of_resume (e : Setup) (h : s.Proper) (hbusy : s.Busy)
    (hline : s.ready = i :: rest) : Progress e s (s.resume e i rest) := by
  obtain ⟨c, hc, -⟩ := h.begun i (by simp [hline])
  by_cases hgoes : c.step e s.world.state = none
  · exact progress_of_stuck h hbusy hline hc hgoes
  · exact progress_of_step h hbusy hline hc hgoes

end Turns

theorem Proper.effort_ring {t : Nat} (h : s.Proper) (hline : s.ready = []) (e : Setup) (j : Nat) :
    (s.ring t).effort e j ≤ s.effort e j ∧
      (j ∈ (s.ring t).ready → (s.ring t).effort e j < s.effort e j) := by
  have hout : s.ready.contains j = false := by simp [hline]
  cases hc : s.call? j with
  | none =>
    have hring : (s.ring t).call? j = none := hc
    refine ⟨by simp [effort, hring], fun hj => ?_⟩
    obtain ⟨a, ha, -, rfl⟩ := (mem_ready_ring hline).mp hj
    obtain ⟨c, hc', -⟩ := h.wanted a ha
    cases hc.symm.trans hc'
  | some c =>
    have hring : (s.ring t).call? j = some c := hc
    rw [effort_of_call hc, effort_of_call hring, hout]
    by_cases hj : j ∈ (s.ring t).ready
    · obtain ⟨hq, hf, hgoes⟩ := h.goes_after_ring hline e hc hj
      have hin : (s.ring t).ready.contains j = true := List.contains_iff_mem.mpr hj
      have hfree : (c.step e (s.ring t).world.state).isNone = false := by
        simpa [Option.isSome_iff_ne_none] using hgoes
      have hless := delay_in_lt hq hf (c.step e s.world.state).isNone
      rw [hin, hfree]
      exact ⟨by omega, fun _ => by omega⟩
    · have hstill : (s.ring t).ready.contains j = false := by simpa using hj
      rw [hstill]
      refine ⟨Nat.add_le_add_left (delay_le_delay ?_ ?_ ?_) _, fun hj' => absurd hj' hj⟩ <;> simp

/-- When nobody is in line, the clock jumps, and somebody can go on. -/
theorem progress_of_ring (e : Setup) (h : s.Proper) (hbusy : s.Busy) (hline : s.ready = [])
    {t : Nat} (ht : earliest s.alarms = some t) : Progress e s (s.ring t) := by
  obtain ⟨a, ha, hat⟩ := exists_of_earliest ht
  have hrings : a.call ∈ (s.ring t).ready :=
    (mem_ready_ring hline).mpr ⟨a, ha, Nat.le_of_eq hat, rfl⟩
  refine ⟨h.ring hline, fun hw => ?_, labor_lt rfl (fun j => (h.effort_ring hline e j).1)
    ((h.effort_ring hline e a.call).2 hrings)⟩
  obtain ⟨j, c, hc, hq, hj⟩ := hbusy hw
  exact ⟨j, c, hc, hq, hj.imp_left fun hready => by simp [hline] at hready⟩

/-! ### Whole schedules -/

/-- With as many turns as are left to take, all calls are done. -/
theorem turns_finish (e : Setup) {fuel : Nat} (h : s.Proper) (hbusy : s.Busy)
    (hfuel : s.labor e ≤ fuel) : ∀ c ∈ (turns e fuel s).world.calls, c.outcome? ≠ none := by
  induction fuel generalizing s with
  | zero => exact done_of_labor_eq_zero (Nat.eq_zero_of_le_zero hfuel)
  | succ fuel ih =>
    have hgo {s' : Schedule} (hp : Progress e s s') :
        ∀ c ∈ (turns e fuel s').world.calls, c.outcome? ≠ none :=
      ih hp.proper hp.busy (Nat.le_of_lt_succ (Nat.lt_of_lt_of_le hp.labor hfuel))
    unfold turns
    split
    · rename_i i rest hline
      exact hgo (progress_of_resume e h hbusy hline)
    · rename_i hline
      split
      · rename_i t ht
        exact hgo (progress_of_ring e h hbusy hline ht)
      · rename_i hnone
        exact h.all_done hbusy hline (eq_nil_of_earliest hnone)

theorem effort_opening (e : Setup) (s : State) (workers : Nat) (rs : List Request) (i : Nat) :
    (opening s workers rs).effort e i ≤ ((rs[i]?).map turnsFor).getD 0 := by
  rw [effort, call?_opening]
  cases hr : rs[i]? with
  | none => simp
  | some r =>
    have hopened :
        Call.opened { request := r, phase := if i < workers then .arrived else .queued } =
          { request := r } := by
      split <;> rfl
    simp only [Option.map_some, Option.getD_some, hopened, turnsFor, Call.rank]
    refine Nat.le_trans (Nat.add_le_add_left (delay_le _ _ _) _) ?_
    omega

theorem labor_opening (e : Setup) (s : State) (workers : Nat) (rs : List Request) :
    (opening s workers rs).labor e ≤ (rs.map turnsFor).sum := by
  have hlength : (opening s workers rs).world.calls.length = rs.length := by
    simp [opening, arrivals]
  have hturns : (List.range rs.length).map (fun i => ((rs[i]?).map turnsFor).getD 0) =
      rs.map turnsFor := by
    apply List.ext_getElem
    · simp
    · intro i hi hi'
      simp at hi
      simp [hi]
  rw [labor, hlength, ← hturns]
  exact List.sum_le_sum fun i _ => effort_opening e s workers rs i

/-- With a worker at least, a schedule from any state brings all its calls to their ends, and what
it leaves is the end of a history of the world in which all its calls have arrived. -/
theorem run_eq_history (e : Setup) (s : State) {workers : Nat} (hw : 0 < workers)
    (rs : List Request) :
    (∀ c ∈ (run e s workers rs).calls, c.outcome? ≠ none) ∧
    ∃ history, run e s workers rs =
      World.run e ⟨s, rs.map fun r => { request := r }⟩ history := by
  have hproper := proper_opening s workers rs
  have hfuel : (opening s workers rs).labor e ≤
      (rs.map turnsFor).foldr (· + ·) 0 * (rs.length + 1) :=
    Nat.le_trans (labor_opening e s workers rs) (Nat.le_mul_of_pos_right _ (Nat.succ_pos _))
  have hdone : ∀ c ∈ (run e s workers rs).calls, c.outcome? ≠ none :=
    turns_finish e hproper (busy_opening s hw rs) hfuel
  obtain ⟨-, history, hrun⟩ :=
    turns_lead e ((rs.map turnsFor).foldr (· + ·) 0 * (rs.length + 1)) hproper.toFair
  refine ⟨hdone, history, ?_⟩
  have hstart : (opening s workers rs).world.opened = ⟨s, rs.map fun r => { request := r }⟩ := by
    simp only [opening, World.opened, map_opened_arrivals]
  rw [hstart] at hrun
  exact (World.opened_of_done hdone).symm.trans hrun

end Schedule

end RuleExchange.Engine
