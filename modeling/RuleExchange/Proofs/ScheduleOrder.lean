import RuleExchange.Proofs.ScheduleHistory

/-! The order of a schedule. A call that cannot take its next step has not begun or is done, or it
waits for the clock or for a leader, and what could go on once can still go on later. In a
proper schedule the calls in line have begun, and a call out of line that is not done waits for
a worker or has an alarm set. Every turn keeps a schedule proper, and as long as calls wait for
a worker, some call has one; so when nobody is in line and no alarm is set, all calls are done. -/

namespace RuleExchange

theorem Flights.result?_land_ne_none {κ α : Type} [DecidableEq κ] (f : Flights κ α) (l : Leader κ)
    (v : Option α) : (f.land l v).result? l.ticket ≠ none := by
  simp [result?, land, forget, List.find?_append]

namespace Engine

/-! ### Calls that have to wait -/

/-- The clock has advanced and results have come, no more than that. -/
structure State.Later (s s' : State) : Prop where
  now : s.now ≤ s'.now
  results : ∀ t, s.flights.result? t ≠ none → s'.flights.result? t ≠ none

namespace Call

/-- No step can be taken: the call has not begun or is done, or it waits for the clock or for a
leader. -/
def Blocked (e : Setup) (s : State) : Phase → Prop
  | .queued | .finished _ => True
  | .following t deadline => s.flights.result? t = none ∧ s.now < deadline
  | .executing l ready => s.now < ready ∧ s.now < l.deadline
  | .pausing l _ _ wake => e.validator ≠ none ∧ s.now < wake ∧ s.now < l.deadline
  | .asking l _ _ _ wake => s.now < wake ∧ s.now < l.deadline
  | _ => False

variable {e : Setup} {s s' : State} {r : Request} {p p' : Phase} {c : Call}

theorem blocked_of_step_eq_none (h : c.step e s = none) : Blocked e s c.phase := by
  obtain ⟨r, p, began⟩ := c
  cases p with
  | queued | finished => trivial
  | arrived => cases hr : route e r <;> simp [step, hr] at h
  | resolved rt =>
    rcases s.lookUp_cases rt.key with ⟨x, s₁, -, -, hl⟩ | ⟨-, hl⟩ <;> simp [step, hl] at h
  | missed rt =>
    rcases s.enter_cases rt.pair with ⟨ms, s₁, -, hl⟩ | ⟨p, s₁, -, hl⟩ <;> simp [step, hl] at h
  | entered rt p =>
    rcases s.flights.join_cases rt.key with ⟨t, -, hj⟩ | ⟨-, hj⟩ <;> simp [step, hj] at h
  | leading l =>
    rcases s.lookUp_cases l.route.key with ⟨x, s₁, -, -, hl⟩ | ⟨-, hl⟩ <;> simp [step, hl] at h
  | following t d =>
    cases hr : s.flights.result? t with
    | none => exact ⟨hr, by simpa [step, hr] using h⟩
    | some v => cases v <;> simp [step, hr] at h
  | executing l ready =>
    by_cases hw : ready ≤ s.now
    · simp [step, hw] at h
    · exact ⟨by omega, by simpa [step, hw, await] using h⟩
  | pausing l d made wake =>
    cases hv : e.validator with
    | none => simp [step, hv] at h
    | some replies =>
      by_cases hw : wake ≤ s.now
      · simp [step, hv, hw] at h
      · exact ⟨by simp [hv], by omega, by simpa [step, hv, hw, await] using h⟩
  | asking l d made answer wake =>
    by_cases hw : wake ≤ s.now
    · simp [step, hw] at h
    · exact ⟨by omega, by simpa [step, hw, await] using h⟩
  | concluded | recorded | publishing | answered => simp [step] at h

theorem Blocked.step_eq_none (h : Blocked e s c.phase) : c.step e s = none := by
  obtain ⟨r, p, began⟩ := c
  cases p with
  | queued | finished => rfl
  | following t d => simp [step, h.1, h.2]
  | executing l ready =>
    obtain ⟨hw, hd⟩ : s.now < ready ∧ s.now < l.deadline := h
    simp [step, await, Nat.not_le.mpr hw, Nat.not_le.mpr hd]
  | pausing l d made wake =>
    obtain ⟨hv, hw, hd⟩ : e.validator ≠ none ∧ s.now < wake ∧ s.now < l.deadline := h
    obtain ⟨replies, hv⟩ := Option.ne_none_iff_exists'.mp hv
    simp [step, hv, await, Nat.not_le.mpr hw, Nat.not_le.mpr hd]
  | asking l d made answer wake =>
    obtain ⟨hw, hd⟩ : s.now < wake ∧ s.now < l.deadline := h
    simp [step, await, Nat.not_le.mpr hw, Nat.not_le.mpr hd]
  | _ => exact h.elim

/-- What could go on can still go on later. -/
theorem Blocked.of_later (hl : s.Later s') (h : Blocked e s' p) : Blocked e s p := by
  have hnow := hl.now
  cases p with
  | queued | finished => trivial
  | following t d =>
    refine ⟨?_, Nat.lt_of_le_of_lt hnow h.2⟩
    by_contra hsome
    exact hl.results t hsome h.1
  | pausing l d made wake =>
    exact ⟨h.1, Nat.lt_of_le_of_lt hnow h.2.1, Nat.lt_of_le_of_lt hnow h.2.2⟩
  | executing | asking =>
    exact ⟨Nat.lt_of_le_of_lt hnow h.1, Nat.lt_of_le_of_lt hnow h.2⟩
  | _ => exact h

/-- A call that has to wait for the clock has set its alarms for the future. -/
theorem Blocked.now_lt (h : Blocked e s c.phase) {t : Nat} (ht : t ∈ c.alarms) : s.now < t := by
  obtain ⟨r, p, began⟩ := c
  cases p with
  | following t' d =>
    cases List.mem_singleton.mp ht
    exact h.2
  | pausing l d made wake =>
    simp only [alarms, List.mem_cons, List.not_mem_nil, or_false] at ht
    rcases ht with rfl | rfl
    · exact h.2.2
    · exact h.2.1
  | executing | asking =>
    simp only [alarms, List.mem_cons, List.not_mem_nil, or_false] at ht
    rcases ht with rfl | rfl
    · exact h.2
    · exact h.1
  | _ => cases ht

theorem Blocked.exists_alarm (h : Blocked e s c.phase) (hq : c.phase ≠ .queued)
    (ho : c.outcome? = none) : ∃ t, t ∈ c.alarms := by
  obtain ⟨r, p, began⟩ := c
  cases p with
  | queued => exact absurd rfl hq
  | finished => cases ho
  | following t d => exact ⟨d, by simp [alarms]⟩
  | executing l ready => exact ⟨ready, by simp [alarms]⟩
  | pausing l d made wake => exact ⟨wake, by simp [alarms]⟩
  | asking l d made answer wake => exact ⟨wake, by simp [alarms]⟩
  | _ => exact h.elim

theorem Transition.later (ht : Transition e s r p s' p') : s.Later s' := by
  refine ⟨Nat.le_of_eq ?_, fun t h => ?_⟩
  · cases ht with
    | hit _ hs | refuse hs | enter hs | follow _ hs | receive _ hs | find _ hs | ask hs
    | record hs | account hs => exact hs.now.symm
    | publish hs => exact hs.now.symm
    | @store l o => cases o <;> rfl
    | _ => rfl
  · rcases ht.flights_cases with ⟨hf, -⟩ | ⟨l, -, -, -, -, hf⟩ | ⟨l, o, -, -, -, hf⟩
    · rwa [hf]
    · rw [hf]
      exact h
    · obtain ⟨v, hv⟩ := Option.ne_none_iff_exists'.mp h
      rw [hf, Flights.publish, Flights.result?_land_of_some hv]
      exact Option.some_ne_none v

/-- The followers of a call that publishes can go on. -/
theorem Transition.result?_of_publishing {l : Lead} {o : Outcome} {held : Option Permit}
    (ht : Transition e s r (.publishing l o held) s' p') :
    s'.flights.result? l.leader.ticket ≠ none := by
  cases ht with
  | publish hs =>
    rw [hs.flights]
    exact Flights.result?_land_ne_none _ _ _

end Call

/-! ### The line, the alarms and the workers -/

namespace Schedule

variable {e : Setup} {s s' : Schedule}

theorem mem_ready_wake {is : List Nat} {j : Nat} :
    j ∈ (s.wake is).ready ↔ j ∈ s.ready ∨ j ∈ is := by
  simp only [wake, List.mem_append, List.mem_filter]
  by_cases hj : j ∈ s.ready <;> simp [hj]

theorem nodup_wake (h : s.ready.Nodup) {is : List Nat} (his : is.Nodup) :
    (s.wake is).ready.Nodup := by
  refine List.nodup_append.mpr ⟨h, his.filter _, ?_⟩
  rintro i hi j hj rfl
  simp [hi] at hj

/-- The alarms of the call are those that it wants, and the others are as before. -/
theorem mem_setAlarms {i : Nat} {times : List Nat} {a : Alarm} :
    a ∈ (s.setAlarms i times).alarms ↔
      if a.call = i then a.time ∈ times else a ∈ s.alarms := by
  obtain ⟨t, j⟩ := a
  by_cases hj : j = i
  · subst hj
    by_cases hm : ⟨t, j⟩ ∈ s.alarms
    · simp only [setAlarms, List.mem_append, List.mem_filter, List.mem_map, hm]
      by_cases ht : t ∈ times <;> simp [ht]
    · have hold : ∀ x ∈ s.alarms, x.call = j → x.time ≠ t := by
        rintro ⟨t', j'⟩ hx rfl rfl
        exact hm hx
      simp [setAlarms, hm]
      exact fun _ x hx hxj _ => hold x hx hxj
  · simp [setAlarms, hj, Ne.symm hj]

theorem mem_followersOf {ticket j : Nat} :
    j ∈ s.followersOf ticket ↔
      ∃ c deadline, s.call? j = some c ∧ c.phase = .following ticket deadline := by
  simp only [followersOf, List.mem_map, List.mem_filter, Prod.exists,
    List.mk_mem_zipIdx_iff_getElem?]
  constructor
  · rintro ⟨c, i, ⟨hc, hp⟩, rfl⟩
    split at hp
    · rename_i t deadline hphase
      refine ⟨c, deadline, hc, ?_⟩
      rw [hphase, of_decide_eq_true hp]
    · cases hp
  · rintro ⟨c, deadline, hc, hphase⟩
    exact ⟨c, j, ⟨hc, by simp [hphase]⟩, rfl⟩

theorem nodup_followersOf (s : Schedule) (ticket : Nat) : (s.followersOf ticket).Nodup := by
  have hplaces : (s.world.calls.zipIdx.map (·.2)).Nodup := by
    rw [List.zipIdx_map_snd]
    exact List.nodup_range'
  exact hplaces.sublist (List.filter_sublist.map _)

theorem exists_of_earliest {alarms : List Alarm} {t : Nat} (h : earliest alarms = some t) :
    ∃ a ∈ alarms, a.time = t := by
  induction alarms generalizing t with
  | nil => cases h
  | cons a as ih =>
    simp only [earliest] at h
    split at h
    · cases h
      exact ⟨a, List.mem_cons_self, rfl⟩
    · rename_i t' ht'
      cases h
      rcases Nat.le_total a.time t' with hle | hle
      · exact ⟨a, List.mem_cons_self, (Nat.min_eq_left hle).symm⟩
      · obtain ⟨b, hb, hbt⟩ := ih ht'
        exact ⟨b, List.mem_cons_of_mem _ hb, hbt.trans (Nat.min_eq_right hle).symm⟩

theorem eq_nil_of_earliest {alarms : List Alarm} (h : earliest alarms = none) : alarms = [] := by
  cases alarms with
  | nil => rfl
  | cons a as =>
    simp only [earliest] at h
    split at h <;> cases h

theorem nodup_eraseDups (l : List Nat) : l.eraseDups.Nodup := by
  induction hn : l.length using Nat.strongRecOn generalizing l with
  | ind n ih =>
    cases l with
    | nil => simp
    | cons i rest =>
      rw [List.eraseDups_cons, List.nodup_cons, List.mem_eraseDups]
      have hshorter : (rest.filter fun j => !j == i).length < n :=
        hn ▸ Nat.lt_succ_of_le (List.length_filter_le _ _)
      exact ⟨by simp, ih _ hshorter _ rfl⟩

/-- Calls in line have begun, and so has everybody but those that wait for a worker. A call out of
line that has begun is done or has an alarm set, and the alarms that are set for calls out of
line are those that they want. -/
structure Proper (s : Schedule) : Prop where
  line : s.ready.Nodup
  begun : ∀ i ∈ s.ready, ∃ c, s.call? i = some c ∧ c.phase ≠ .queued
  fair : s.waiting.Nodup
  queued : ∀ i ∈ s.waiting, ∃ c, s.call? i = some c ∧ c.phase = .queued
  waits : ∀ i c, s.call? i = some c → c.phase = .queued → i ∈ s.waiting
  wanted : ∀ a ∈ s.alarms, ∃ c, s.call? a.call = some c ∧ (a.call ∈ s.ready ∨ a.time ∈ c.alarms)
  alarmed : ∀ i c, s.call? i = some c → c.phase ≠ .queued → c.outcome? = none → i ∉ s.ready →
    ∃ a ∈ s.alarms, a.call = i

/-- As long as calls wait for a worker, some call has one. -/
def Busy (s : Schedule) : Prop :=
  s.waiting ≠ [] → ∃ i c, s.call? i = some c ∧ c.phase ≠ .queued ∧ (i ∈ s.ready ∨ c.outcome? = none)

/-- When nobody is in line and no alarm is set, all calls are done. -/
theorem Proper.all_done (h : s.Proper) (hbusy : s.Busy) (hline : s.ready = [])
    (hset : s.alarms = []) : ∀ c ∈ s.world.calls, c.outcome? ≠ none := by
  have hbegun (i : Nat) (c : Call) (hc : s.call? i = some c) (hq : c.phase ≠ .queued) :
      c.outcome? ≠ none := by
    intro ho
    obtain ⟨a, ha, -⟩ := h.alarmed i c hc hq ho (by simp [hline])
    simp [hset] at ha
  have hnobody : s.waiting = [] := by
    by_contra hwaiting
    obtain ⟨i, c, hc, hq, hready | ho⟩ := hbusy hwaiting
    · simp [hline] at hready
    · exact hbegun i c hc hq ho
  intro c hc
  obtain ⟨i, hi⟩ := List.getElem?_of_mem hc
  refine hbegun i c hi fun hq => ?_
  have hwaits := h.waits i c hi hq
  simp [hnobody] at hwaits

/-! ### Leaving the line -/

section Turns

variable {i : Nat} {rest : List Nat} {c : Call}

theorem Proper.not_mem_rest (h : s.Proper) (hline : s.ready = i :: rest) : i ∉ rest :=
  (List.nodup_cons.mp (hline ▸ h.line)).1

/-- The first of the line leaves it, with the alarms set that it wants. -/
theorem Proper.leave (h : s.Proper) (hline : s.ready = i :: rest) (hc : s.call? i = some c)
    (hstuck : c.step e s.world.state = none) :
    Proper (setAlarms { s with ready := rest } i c.alarms) := by
  have hblocked := Call.blocked_of_step_eq_none hstuck
  have hmem (j : Nat) : j ∈ s.ready ↔ j = i ∨ j ∈ rest := by simp [hline]
  refine ⟨(List.nodup_cons.mp (hline ▸ h.line)).2, fun j hj => h.begun j ((hmem j).mpr (.inr hj)),
    h.fair, h.queued, h.waits, fun a ha => ?_, fun j d hd hq ho hj => ?_⟩
  · rw [mem_setAlarms] at ha
    split at ha
    · rename_i ha'
      exact ⟨c, ha' ▸ hc, .inr ha⟩
    · rename_i hne
      obtain ⟨d, hd, hwant⟩ := h.wanted a ha
      refine ⟨d, hd, hwant.imp_left fun hready => ?_⟩
      exact ((hmem _).mp hready).resolve_left hne
  · by_cases hji : j = i
    · subst hji
      cases hc.symm.trans hd
      obtain ⟨t, ht⟩ := hblocked.exists_alarm hq ho
      exact ⟨⟨t, j⟩, mem_setAlarms.mpr (by simpa using ht), rfl⟩
    · obtain ⟨a, ha, rfl⟩ := h.alarmed j d hd hq ho fun hready =>
        hj (((hmem j).mp hready).resolve_left hji)
      exact ⟨a, mem_setAlarms.mpr (by rwa [if_neg hji]), rfl⟩

/-- A worker that becomes free goes to a call that waits for one, if there is one. -/
theorem Proper.freeWorker_cases (h : s.Proper) :
    s.waiting = [] ∧ s.freeWorker = s ∨
    ∃ k c more, s.waiting = k :: more ∧ k ∉ more ∧ s.call? k = some c ∧ c.phase = .queued ∧
      (∀ j, s.freeWorker.call? j = if j = k then some c.arrive else s.call? j) ∧
      (∀ j, j ∈ s.freeWorker.ready ↔ j ∈ s.ready ∨ j = k) ∧ s.freeWorker.ready.Nodup ∧
      s.freeWorker.waiting = more ∧ s.freeWorker.alarms = s.alarms ∧
      s.freeWorker.world.state = s.world.state := by
  cases hw : s.waiting with
  | nil => exact .inl ⟨rfl, by simp [freeWorker, hw]⟩
  | cons k more =>
    obtain ⟨c, hc, hq⟩ := h.queued k (by simp [hw])
    have hfree : s.freeWorker = wake { s with
        waiting := more
        world := { s.world with calls := s.world.calls.set k c.arrive } } [k] := by
      simp [freeWorker, hw, startCall, show call? { s with waiting := more } k = some c from hc]
    refine .inr ⟨k, c, more, rfl, (List.nodup_cons.mp (hw ▸ h.fair)).1, hc, hq, fun j => ?_,
      fun j => ?_, ?_, by rw [hfree]; rfl, by rw [hfree]; rfl, by rw [hfree]; rfl⟩
    · rw [hfree]
      exact World.getElem?_moved hc _ j
    · rw [hfree, mem_ready_wake, List.mem_singleton]
    · rw [hfree]
      exact nodup_wake h.line (List.nodup_singleton k)

theorem Proper.freeWorker (h : s.Proper) : s.freeWorker.Proper := by
  rcases h.freeWorker_cases with ⟨-, hsame⟩ |
    ⟨k, c, more, hw, hk, hc, hq, hcall, hready, hnodup, hwaiting, halarms, -⟩
  · rwa [hsame]
  have hwaits (j : Nat) : j ∈ s.waiting ↔ j = k ∨ j ∈ more := by simp [hw]
  have hother {j : Nat} (hj : j ≠ k) : s.freeWorker.call? j = s.call? j :=
    (hcall j).trans (if_neg hj)
  have hself : s.freeWorker.call? k = some c.arrive := (hcall k).trans (if_pos rfl)
  refine ⟨hnodup, fun j hj => ?_, ?_, fun j hj => ?_, fun j d hd hdq => ?_, fun a ha => ?_,
    fun j d hd hdq ho hj => ?_⟩
  · by_cases hjk : j = k
    · exact ⟨_, hjk ▸ hself, Phase.noConfusion⟩
    · rw [hother hjk]
      exact h.begun j (((hready j).mp hj).resolve_right hjk)
  · rw [hwaiting]
    exact (List.nodup_cons.mp (hw ▸ h.fair)).2
  · rw [hwaiting] at hj
    have hjk : j ≠ k := fun hjk => hk (hjk ▸ hj)
    rw [hother hjk]
    exact h.queued j ((hwaits j).mpr (.inr hj))
  · rw [hwaiting]
    by_cases hjk : j = k
    · cases hself.symm.trans (hjk ▸ hd)
      cases hdq
    · exact ((hwaits j).mp (h.waits j d (hother hjk ▸ hd) hdq)).resolve_left hjk
  · rw [halarms] at ha
    obtain ⟨d, hd, hwant⟩ := h.wanted a ha
    by_cases hak : a.call = k
    · exact ⟨_, hak ▸ hself, .inl ((hready _).mpr (.inr hak))⟩
    · exact ⟨d, (hother hak).trans hd, hwant.imp_left fun hr => (hready _).mpr (.inl hr)⟩
  · have hjk : j ≠ k := fun hjk => hj ((hready j).mpr (.inr hjk))
    rw [halarms]
    exact h.alarmed j d (hother hjk ▸ hd) hdq ho fun hr => hj ((hready j).mpr (.inl hr))

theorem Proper.busy_freeWorker (h : s.Proper) : s.freeWorker.Busy := by
  rcases h.freeWorker_cases with ⟨hw, hsame⟩ | ⟨k, c, more, -, -, -, -, hcall, hready, -⟩
  · rw [hsame]
    exact fun hne => absurd hw hne
  · exact fun _ => ⟨k, _, (hcall k).trans (if_pos rfl), Phase.noConfusion,
      .inl ((hready k).mpr (.inr rfl))⟩

/-! ### Taking a step -/

/-- The followers of a ticket that lands, if one does, get in line. -/
def wakeFollowers (s : Schedule) : Option Nat → Schedule
  | some ticket => s.wake (s.followersOf ticket)
  | none => s

theorem wakeFollowers_eq (s : Schedule) (landed : Option Nat) :
    ∃ more, s.wakeFollowers landed = { s with ready := s.ready ++ more } := by
  cases landed with
  | none => exact ⟨[], by simp [wakeFollowers]⟩
  | some ticket => exact ⟨_, rfl⟩

theorem mem_wakeFollowers {landed : Option Nat} {j : Nat} :
    j ∈ (s.wakeFollowers landed).ready ↔ j ∈ s.ready ∨ ∃ ticket d deadline,
      landed = some ticket ∧ s.call? j = some d ∧ d.phase = .following ticket deadline := by
  cases landed with
  | none => simp [wakeFollowers]
  | some ticket => simp [wakeFollowers, mem_ready_wake, mem_followersOf]

theorem nodup_wakeFollowers (h : s.ready.Nodup) (landed : Option Nat) :
    (s.wakeFollowers landed).ready.Nodup := by
  cases landed with
  | none => exact h
  | some ticket => exact nodup_wake h (nodup_followersOf s ticket)

/-- What a step of the first of the line changes: its own call, the calls that follow it get in
line if it publishes, and no alarms but its own. -/
structure Advances (e : Setup) (s : Schedule) (i : Nat) (c : Call) (p : Phase) (s' : Schedule) :
    Prop where
  step : Call.Transition e s.world.state c.request c.phase s'.world.state p
  calls : ∀ j, s'.call? j = if j = i then some (c.go s.now p) else s.call? j
  length : s'.world.calls.length = s.world.calls.length
  line : s'.ready.Nodup
  ready : ∀ j, j ∈ s'.ready ↔ j ∈ s.ready ∨ ∃ ticket d deadline, landing c = some ticket ∧
    s'.call? j = some d ∧ d.phase = .following ticket deadline
  waiting : s'.waiting = s.waiting
  alarms : ∀ a, a.call ≠ i → (a ∈ s'.alarms ↔ a ∈ s.alarms)

theorem advances_of_step (h : s.Proper) (hline : s.ready = i :: rest) (hc : s.call? i = some c)
    (hgoes : c.step e s.world.state ≠ none) :
    ∃ p, Advances e s i c p (s.resume e i rest) := by
  obtain ⟨st, p, hs, ht, hm⟩ := World.move_of_step hc hgoes
  let moved : Schedule := { s with world := s.world.move e i }
  obtain ⟨more, hwoken⟩ := moved.wakeFollowers_eq (landing c)
  have hnodup := nodup_wakeFollowers (s := moved) h.line (landing c)
  have hready (j : Nat) : j ∈ (moved.wakeFollowers (landing c)).ready ↔ _ := mem_wakeFollowers
  have hresume : s.resume e i rest =
      if (c.go s.now p).isExecuting then
        setAlarms { moved.wakeFollowers (landing c) with
          ready := (moved.wakeFollowers (landing c)).ready.drop 1 ++ [i] } i (c.go s.now p).alarms
      else moved.wakeFollowers (landing c) := by
    simp only [resume, hc, hs]
    cases landing c <;> rfl
  have hcalls (j : Nat) : moved.call? j = if j = i then some (c.go s.now p) else s.call? j := by
    show (s.world.move e i).calls[j]? = _
    rw [hm]
    exact World.getElem?_moved hc _ j
  have hstate : moved.world.state = st := by
    show (s.world.move e i).state = st
    rw [hm]
  have hlength : moved.world.calls.length = s.world.calls.length := by
    show (s.world.move e i).calls.length = _
    rw [hm, List.length_set]
  have hfront : moved.ready ++ more = i :: (rest ++ more) := by
    show s.ready ++ more = _
    rw [hline, List.cons_append]
  rw [hwoken] at hready hnodup hresume
  rw [hresume]
  refine ⟨p, ?_⟩
  split
  · -- the call goes to the end of the line, with its alarms set
    have hturn : (moved.ready ++ more).drop 1 ++ [i] = rest ++ more ++ [i] := by
      rw [hfront, List.drop_one, List.tail_cons]
    have hperm : (rest ++ more ++ [i]).Perm (moved.ready ++ more) :=
      hfront ▸ List.perm_append_singleton i (rest ++ more)
    refine ⟨hstate ▸ ht, hcalls, hlength, ?_, fun j => ?_, rfl, fun a ha => ?_⟩
    · exact hturn ▸ hperm.nodup_iff.mpr hnodup
    · refine Iff.trans ?_ (hready j)
      exact hturn ▸ hperm.mem_iff
    · rw [mem_setAlarms, if_neg ha]
  · exact ⟨hstate ▸ ht, hcalls, hlength, hnodup, hready, rfl, fun a _ => Iff.rfl⟩

namespace Advances

variable {p : Phase}

theorem call_self (h : Advances e s i c p s') : s'.call? i = some (c.go s.now p) :=
  (h.calls i).trans (if_pos rfl)

theorem call_other (h : Advances e s i c p s') {j : Nat} (hj : j ≠ i) : s'.call? j = s.call? j :=
  (h.calls j).trans (if_neg hj)

theorem mem_ready (h : Advances e s i c p s') {j : Nat} (hj : j ∈ s.ready) : j ∈ s'.ready :=
  (h.ready j).mpr (.inl hj)

theorem proper (h : Advances e s i c p s') (hs : s.Proper) (hi : i ∈ s.ready)
    (hc : s.call? i = some c) : s'.Proper := by
  have hbegun : c.phase ≠ .queued := by
    obtain ⟨d, hd, hq⟩ := hs.begun i hi
    cases hc.symm.trans hd
    exact hq
  refine ⟨h.line, fun j hj => ?_, h.waiting ▸ hs.fair, fun j hj => ?_, fun j d hd hq => ?_,
    fun a ha => ?_, fun j d hd hq ho hj => ?_⟩
  · by_cases hji : j = i
    · exact ⟨_, hji ▸ h.call_self, h.step.ne_queued⟩
    · rcases (h.ready j).mp hj with hr | ⟨ticket, d, deadline, -, hd, hp⟩
      · rw [h.call_other hji]
        exact hs.begun j hr
      · exact ⟨d, hd, by simp [hp]⟩
  · obtain ⟨d, hd, hq⟩ := hs.queued j (h.waiting ▸ hj)
    have hji : j ≠ i := by
      rintro rfl
      cases hc.symm.trans hd
      exact hbegun hq
    exact ⟨d, (h.call_other hji).trans hd, hq⟩
  · have hji : j ≠ i := by
      rintro rfl
      cases h.call_self.symm.trans hd
      exact h.step.ne_queued hq
    rw [h.waiting]
    exact hs.waits j d (h.call_other hji ▸ hd) hq
  · by_cases hai : a.call = i
    · exact ⟨_, hai ▸ h.call_self, .inl (hai ▸ h.mem_ready hi)⟩
    · obtain ⟨d, hd, hwant⟩ := hs.wanted a ((h.alarms a hai).mp ha)
      exact ⟨d, (h.call_other hai).trans hd, hwant.imp_left h.mem_ready⟩
  · have hji : j ≠ i := fun hji => hj (hji ▸ h.mem_ready hi)
    obtain ⟨a, ha, rfl⟩ :=
      hs.alarmed j d (h.call_other hji ▸ hd) hq ho fun hr => hj (h.mem_ready hr)
    exact ⟨a, (h.alarms a hji).mpr ha, rfl⟩

theorem busy (h : Advances e s i c p s') (hs : s.Busy) (hi : i ∈ s.ready) : s'.Busy := by
  intro hw
  obtain ⟨j, d, hd, hq, hj⟩ := hs (h.waiting ▸ hw)
  by_cases hji : j = i
  · exact ⟨i, _, h.call_self, h.step.ne_queued, .inl (h.mem_ready hi)⟩
  · exact ⟨j, d, (h.call_other hji).trans hd, hq, hj.imp_left h.mem_ready⟩

end Advances

end Turns

/-! ### Alarms that ring -/

section Ringing

variable {t : Nat}

theorem mem_ready_ring (hline : s.ready = []) {j : Nat} :
    j ∈ (s.ring t).ready ↔ ∃ a ∈ s.alarms, a.time ≤ t ∧ a.call = j := by
  simp [ring, mem_ready_wake, hline, and_assoc]

theorem mem_alarms_ring {a : Alarm} : a ∈ (s.ring t).alarms ↔ a ∈ s.alarms ∧ t < a.time := by
  simp [ring, wake]

theorem le_now_ring (s : Schedule) (t : Nat) : t ≤ (s.ring t).world.state.now := by
  show t ≤ s.world.state.now + (t - s.world.state.now)
  omega

/-- A call that is called into the line waited for the clock, and it can go on. -/
theorem Proper.goes_after_ring (h : s.Proper) (hline : s.ready = []) (e : Setup) {j : Nat}
    {c : Call} (hc : s.call? j = some c) (hj : j ∈ (s.ring t).ready) :
    c.phase ≠ .queued ∧ (∀ o, c.phase ≠ .finished o) ∧
      c.step e (s.ring t).world.state ≠ none := by
  obtain ⟨a, ha, hat, rfl⟩ := (mem_ready_ring hline).mp hj
  obtain ⟨d, hd, hwant⟩ := h.wanted a ha
  cases hc.symm.trans hd
  have hwant : a.time ∈ c.alarms := hwant.resolve_left (by simp [hline])
  refine ⟨fun hq => ?_, fun o ho => ?_, fun hstuck => ?_⟩
  · simp [Call.alarms, hq] at hwant
  · simp [Call.alarms, ho] at hwant
  · have hlt := (Call.blocked_of_step_eq_none hstuck).now_lt hwant
    have hle := le_now_ring s t
    omega

theorem Proper.ring (h : s.Proper) (hline : s.ready = []) : (s.ring t).Proper := by
  refine ⟨nodup_wake h.line (nodup_eraseDups _), fun j hj => ?_, h.fair, h.queued, h.waits,
    fun a ha => ?_, fun j d hd hq ho hj => ?_⟩
  · obtain ⟨a, ha, hat, rfl⟩ := (mem_ready_ring hline).mp hj
    obtain ⟨c, hc, -⟩ := h.wanted a ha
    exact ⟨c, hc, (h.goes_after_ring hline {} hc hj).1⟩
  · obtain ⟨c, hc, hwant⟩ := h.wanted a (mem_alarms_ring.mp ha).1
    exact ⟨c, hc, .inr (hwant.resolve_left (by simp [hline]))⟩
  · obtain ⟨a, ha, rfl⟩ := h.alarmed j d hd hq ho (by simp [hline])
    have hlate : t < a.time := by
      by_contra hat
      exact hj ((mem_ready_ring hline).mpr ⟨a, ha, Nat.not_lt.mp hat, rfl⟩)
    exact ⟨a, mem_alarms_ring.mpr ⟨ha, hlate⟩, rfl⟩

end Ringing

/-! ### The first turn -/

/-- A schedule before its first turn. -/
def opening (s : State) (workers : Nat) (rs : List Request) : Schedule :=
  { world := ⟨s, arrivals workers rs⟩
    ready := (List.range rs.length).take workers
    waiting := (List.range rs.length).drop workers }

theorem call?_opening (s : State) (workers : Nat) (rs : List Request) (i : Nat) :
    (opening s workers rs).call? i =
      (rs[i]?).map fun r =>
        { request := r, phase := if i < workers then .arrived else .queued } :=
  getElem?_arrivals workers rs i

theorem mem_take_range {workers n i : Nat} :
    i ∈ (List.range n).take workers ↔ i < workers ∧ i < n := by
  simp [List.take_range]

theorem mem_drop_range {workers n i : Nat} :
    i ∈ (List.range n).drop workers ↔ workers ≤ i ∧ i < n := by
  rw [List.range_eq_range', List.drop_range', List.mem_range'_1]
  omega

theorem proper_opening (s : State) (workers : Nat) (rs : List Request) :
    (opening s workers rs).Proper := by
  have hcall {i : Nat} (hi : i < rs.length) : (opening s workers rs).call? i =
      some { request := rs[i], phase := if i < workers then .arrived else .queued } := by
    rw [call?_opening, List.getElem?_eq_getElem hi, Option.map_some]
  have hvalid {i : Nat} {c : Call} (hc : (opening s workers rs).call? i = some c) :
      i < rs.length := by
    by_contra hi
    rw [call?_opening, List.getElem?_eq_none (Nat.not_lt.mp hi)] at hc
    cases hc
  refine ⟨List.nodup_range.sublist (List.take_sublist _ _), fun i hi => ?_,
    List.nodup_range.sublist (List.drop_sublist _ _), fun i hi => ?_, fun i c hc hq => ?_, nofun,
    fun i c hc hq _ hi => ?_⟩
  · obtain ⟨hiw, hin⟩ := mem_take_range.mp hi
    exact ⟨_, hcall hin, by simp [hiw]⟩
  · obtain ⟨hiw, hin⟩ := mem_drop_range.mp hi
    exact ⟨_, hcall hin, if_neg (Nat.not_lt.mpr hiw)⟩
  · have hin := hvalid hc
    cases (hcall hin).symm.trans hc
    refine mem_drop_range.mpr ⟨?_, hin⟩
    by_contra hiw
    simp [Nat.not_le.mp hiw] at hq
  · have hin := hvalid hc
    cases (hcall hin).symm.trans hc
    have hiw : ¬ i < workers := fun hiw => hi (mem_take_range.mpr ⟨hiw, hin⟩)
    exact absurd (if_neg hiw) hq

theorem busy_opening (s : State) {workers : Nat} (hw : 0 < workers) (rs : List Request) :
    (opening s workers rs).Busy := by
  intro hwaiting
  have hlength : 0 < rs.length := by
    obtain ⟨i, hi⟩ := List.exists_mem_of_ne_nil _ hwaiting
    exact Nat.zero_lt_of_lt (mem_drop_range.mp hi).2
  have hready : 0 ∈ (opening s workers rs).ready := mem_take_range.mpr ⟨hw, hlength⟩
  obtain ⟨c, hc, hq⟩ := (proper_opening s workers rs).begun 0 hready
  exact ⟨0, c, hc, hq, .inl hready⟩

theorem Proper.toFair (h : s.Proper) : s.Fair := by
  refine ⟨h.fair, fun i hi c hc => ?_⟩
  obtain ⟨d, hd, hq⟩ := h.queued i hi
  cases hd.symm.trans hc
  exact hq

end Schedule

end Engine

end RuleExchange
