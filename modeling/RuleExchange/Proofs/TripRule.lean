import Mathlib.Order.Nat
import RuleExchange.Proofs.CircuitSession

/-! When a closed circuit opens. A circuit keeps the outcomes that were reported to it and
drops old ones only from the front, and only when a new one comes. Over a whole session
what it keeps is the exact window: all outcomes of calls that were reported since the
circuit was made or last closed and that are not older than the window. The circuit
opens at a report exactly when that window holds enough outcomes and too large a share of
failures, and nothing else opens a closed circuit. -/

namespace RuleExchange

namespace Circuit

/-- The outcomes that are not older than the window. -/
def within (window now : Nat) (outcomes : List (Nat × Bool)) : List (Nat × Bool) :=
  outcomes.filter fun o => now - o.1 ≤ window

/-- Dropping from the front is enough when the outcomes are ordered by time. -/
theorem recent_eq_within (window now : Nat) {outcomes : List (Nat × Bool)}
    (h : outcomes.Pairwise fun a b => a.1 ≤ b.1) :
    recent window now outcomes = within window now outcomes := by
  induction outcomes with
  | nil => rfl
  | cons o rest ih =>
    obtain ⟨hle, hrest⟩ := List.pairwise_cons.mp h
    by_cases ho : window < now - o.1
    · have hdrop : recent window now (o :: rest) = recent window now rest := by
        simp [recent, ho]
      rw [hdrop, ih hrest, within, within, List.filter_cons_of_neg (by simp; omega)]
    · have hkeep : recent window now (o :: rest) = o :: rest := by simp [recent, ho]
      have hall : ∀ a ∈ o :: rest, now - a.1 ≤ window := by
        intro a ha
        rcases List.mem_cons.mp ha with rfl | ha
        · omega
        · have := hle a ha
          omega
      rw [hkeep, within, List.filter_eq_self.mpr (by simpa using hall)]

/-- What was outside the window stays outside. -/
theorem within_within (window : Nat) {t now : Nat} (h : t ≤ now) (log : List (Nat × Bool)) :
    within window now (within window t log) = within window now log := by
  unfold within
  rw [List.filter_filter]
  apply List.filter_congr
  intro o _
  rw [← Bool.decide_and]
  congr 1
  apply propext
  constructor
  · exact fun ho => ho.1
  · exact fun ho => ⟨ho, by omega⟩

theorem within_append (window now : Nat) (xs ys : List (Nat × Bool)) :
    within window now (xs ++ ys) = within window now xs ++ within window now ys := by
  simp [within]

/-- Enough outcomes, and a share of failures that is too large. -/
def Trips (b : Settings.Breaker) (outcomes : List (Nat × Bool)) : Prop :=
  b.minRequests ≤ outcomes.length ∧
    b.failureRatio ≤ Float.ofNat (failures outcomes) / Float.ofNat outcomes.length

theorem shouldTrip_iff (b : Settings.Breaker) (outcomes : List (Nat × Bool)) :
    shouldTrip b outcomes = true ↔ Trips b outcomes := by
  simp [shouldTrip, Trips]

theorem recordCall_closed {c : Circuit} (h : c.state = .closed) (b : Settings.Breaker)
    (now : Nat) (success : Bool) :
    let kept := recent (windowMs b) now (c.outcomes ++ [(now, success)])
    ((c.recordCall b now success).state = .opened ↔ Trips b kept) ∧
      ((c.recordCall b now success).state ≠ .opened →
        c.recordCall b now success = { c with outcomes := kept }) := by
  intro kept
  rw [← shouldTrip_iff]
  by_cases ht : shouldTrip b kept = true
  · have hr : c.recordCall b now success = trip b now { c with outcomes := kept } := by
      simp [recordCall, h, kept, ht]
    simp [hr, ht]
  · have hr : c.recordCall b now success = { c with outcomes := kept } := by
      simp [recordCall, h, kept, ht]
    simp [hr, ht, h]

end Circuit

namespace Circuits.Session

open Circuit

/-- The outcome that an event reports to the circuit of a pair, when the call was no trial. -/
def reported? (s : Session) (pair : String) : Event → Option Bool
  | .record i success =>
    match s.pending? i with
    | some g => if g.permit = ⟨pair, false⟩ then some success else none
    | none => none
  | _ => none

/-- The outcomes reported since the circuit was made or last closed, after one more event. -/
def note (s : Session) (pair : String) (log : List (Nat × Bool)) (ev : Event) :
    List (Nat × Bool) :=
  if s.state pair = .closed then
    log ++ ((s.reported? pair ev).map fun success => (s.now, success)).toList
  else []

def logFrom (pair : String) : Session → List (Nat × Bool) → List Event → List (Nat × Bool)
  | _, log, [] => log
  | s, log, ev :: rest => logFrom pair (s.apply ev) (s.note pair log ev) rest

/-- The outcomes reported to a closed circuit since it was made or last closed. -/
def log (b : Settings.Breaker) (pair : String) (history : List Event) : List (Nat × Bool) :=
  logFrom pair (start b) [] history

theorem reported?_eq_some {s : Session} {pair : String} {ev : Event} {success : Bool}
    (h : s.reported? pair ev = some success) :
    ∃ i g, ev = .record i success ∧ s.pending? i = some g ∧ g.permit = ⟨pair, false⟩ := by
  unfold reported? at h
  split at h
  · rename_i i ok
    split at h
    · rename_i g hg
      split at h
      · rename_i hp
        cases h
        exact ⟨i, g, rfl, hg, hp⟩
      · cases h
    · cases h
  · cases h

theorem circuit_of_reported {b : Settings.Breaker} {s : Session} (hv : Valid b s)
    {pair : String} {ev : Event} {success : Bool} (h : s.reported? pair ev = some success) :
    (s.apply ev).circuit pair = (s.circuit pair).recordCall b s.now success := by
  obtain ⟨i, g, rfl, hg, hp⟩ := reported?_eq_some h
  have hc := circuit_record_self hg (hv.known g (mem_of_pending? hg)) success
  simpa [hp, hv.settings] using hc

/-- Without a report a closed circuit stays closed and keeps its outcomes. -/
theorem closed_of_unreported {b : Settings.Breaker} {s : Session} (hv : Valid b s)
    {pair : String} {ev : Event} (hc : (s.circuit pair).state = .closed)
    (h : s.reported? pair ev = none) :
    ((s.apply ev).circuit pair).state = .closed ∧
      ((s.apply ev).circuit pair).outcomes = (s.circuit pair).outcomes := by
  rcases circuit_apply_cases hv pair ev with
    he | ⟨-, he⟩ | ⟨i, success, g, rfl, hg, rfl, he⟩ | ⟨i, g, -, -, -, he⟩
  · simp [he, hc]
  · simp [he, enter_closed hc, hc]
  · cases ht : g.permit.trial with
    | false =>
      have hp : g.permit = ⟨g.permit.pair, false⟩ := by rw [← ht]
      simp only [reported?, hg, if_pos hp] at h
      cases h
    | true =>
      rw [he, ht, record_trial, recordTrial_of_ne_halfOpen (by simp [hc])]
      exact ⟨hc, rfl⟩
  · rw [he]
    exact ⟨hc, rfl⟩

/-- A circuit that closes has no outcomes left. -/
theorem outcomes_of_closes {b : Settings.Breaker} {s : Session} (hv : Valid b s)
    {pair : String} {ev : Event} (hbefore : (s.circuit pair).state ≠ .closed)
    (hafter : ((s.apply ev).circuit pair).state = .closed) :
    ((s.apply ev).circuit pair).outcomes = [] := by
  rcases circuit_apply_cases hv pair ev with
    he | ⟨-, he⟩ | ⟨i, success, g, -, hg, rfl, he⟩ | ⟨i, g, -, -, -, he⟩
  · exact absurd (he ▸ hafter) hbefore
  · exact absurd (he ▸ hafter) (enter_ne_closed hbefore b s.now)
  · rw [he] at hafter ⊢
    cases ht : g.permit.trial with
    | false =>
      rw [ht, record_call, recordCall_of_ne_closed hbefore] at hafter
      exact absurd hafter hbefore
    | true =>
      rw [ht, record_trial] at hafter
      by_cases hh : (s.circuit g.permit.pair).state = .halfOpen
      · cases success <;> simp_all [recordTrial, freeTrial]
      · rw [recordTrial_of_ne_halfOpen hh] at hafter
        exact absurd hafter hbefore
  · rw [he] at hafter
    exact absurd hafter hbefore

/-- The outcomes of a closed circuit are a window of its log, which is ordered by time. -/
structure Windowed (b : Settings.Breaker) (pair : String) (s : Session)
    (log : List (Nat × Bool)) : Prop where
  ordered : log.Pairwise fun x y => x.1 ≤ y.1
  past : ∀ o ∈ log, o.1 ≤ s.now
  kept : s.state pair = .closed →
    ∃ t ≤ s.now, (s.circuit pair).outcomes = within (windowMs b) t log

theorem windowed_start (b : Settings.Breaker) (pair : String) :
    Windowed b pair (start b) [] :=
  ⟨.nil, by simp, fun _ => ⟨0, le_rfl, rfl⟩⟩

/-- What a closed circuit keeps when an outcome is reported: the window of the longer log. -/
theorem recent_of_windowed {b : Settings.Breaker} {pair : String} {s : Session}
    {log : List (Nat × Bool)} (h : Windowed b pair s log) (hc : s.state pair = .closed)
    (success : Bool) :
    recent (windowMs b) s.now ((s.circuit pair).outcomes ++ [(s.now, success)]) =
      within (windowMs b) s.now (log ++ [(s.now, success)]) := by
  obtain ⟨t, ht, hk⟩ := h.kept hc
  have hsorted : (within (windowMs b) t log ++ [(s.now, success)]).Pairwise
      fun x y => x.1 ≤ y.1 := by
    refine List.pairwise_append.mpr ⟨h.ordered.filter _, List.pairwise_singleton _ _, ?_⟩
    intro o ho y hy
    cases List.mem_singleton.mp hy
    exact h.past o (List.mem_filter.mp ho).1
  rw [hk, recent_eq_within _ _ hsorted, within_append, within_within _ ht, ← within_append]

theorem now_le_apply (s : Session) (ev : Event) : s.now ≤ (s.apply ev).now := by
  cases ev with
  | ask pair => exact le_rfl
  | record i success => cases h : s.pending? i <;> simp [apply, h]
  | drop i => cases h : s.pending? i <;> simp [apply, h]
  | wait ms => simp [apply]

theorem windowed_apply {b : Settings.Breaker} {pair : String} {s : Session}
    {log : List (Nat × Bool)} (hv : Valid b s) (h : Windowed b pair s log) (ev : Event) :
    Windowed b pair (s.apply ev) (s.note pair log ev) := by
  have hnow := now_le_apply s ev
  by_cases hc : s.state pair = .closed
  · have hc' : (s.circuit pair).state = .closed := by rwa [← state_eq]
    cases hr : s.reported? pair ev with
    | none =>
      have hn : s.note pair log ev = log := by simp [note, hc, hr]
      rw [hn]
      refine ⟨h.ordered, fun o ho => (h.past o ho).trans hnow, fun _ => ?_⟩
      obtain ⟨t, ht, hk⟩ := h.kept hc
      exact ⟨t, ht.trans hnow, (closed_of_unreported hv hc' hr).2.trans hk⟩
    | some success =>
      have hn : s.note pair log ev = log ++ [(s.now, success)] := by simp [note, hc, hr]
      rw [hn]
      refine ⟨?_, ?_, fun hafter => ⟨s.now, hnow, ?_⟩⟩
      · refine List.pairwise_append.mpr ⟨h.ordered, List.pairwise_singleton _ _, ?_⟩
        intro o ho y hy
        cases List.mem_singleton.mp hy
        exact h.past o ho
      · intro o ho
        rcases List.mem_append.mp ho with ho | ho
        · exact (h.past o ho).trans hnow
        · cases List.mem_singleton.mp ho
          exact hnow
      · rw [state_eq, circuit_of_reported hv hr] at hafter
        rw [circuit_of_reported hv hr,
          (recordCall_closed hc' b s.now success).2 (by simp [hafter])]
        exact recent_of_windowed h hc success
  · have hn : s.note pair log ev = [] := by simp [note, hc]
    rw [hn]
    refine ⟨.nil, by simp, fun hafter => ⟨0, Nat.zero_le _, ?_⟩⟩
    rw [state_eq] at hc hafter
    exact outcomes_of_closes hv hc hafter

theorem windowed_logFrom {b : Settings.Breaker} {pair : String} (history : List Event)
    {s : Session} {log : List (Nat × Bool)} (hv : Valid b s) (h : Windowed b pair s log) :
    Windowed b pair (s.run history) (logFrom pair s log history) := by
  induction history generalizing s log with
  | nil => exact h
  | cons ev rest ih => exact ih (valid_apply hv ev) (windowed_apply hv h ev)

/-- A closed circuit opens at a report exactly when the window of all outcomes reported since it
was made or last closed trips it; otherwise it stays closed and holds that window. An event
that reports nothing to a closed circuit leaves it closed. -/
theorem opens_iff_window_trips (b : Settings.Breaker) (history : List Event) (pair : String)
    (ev : Event) (hc : ((start b).run history).state pair = .closed) :
    let s := (start b).run history
    let after := s.apply ev
    (∀ success, s.reported? pair ev = some success →
      let window := within (windowMs b) s.now (log b pair history ++ [(s.now, success)])
      (after.state pair = .opened ↔
        b.minRequests ≤ window.length ∧
          b.failureRatio ≤ Float.ofNat (failures window) / Float.ofNat window.length) ∧
      (after.state pair ≠ .opened →
        after.state pair = .closed ∧ (after.circuit pair).outcomes = window)) ∧
    (s.reported? pair ev = none → after.state pair = .closed) := by
  intro s after
  have hv : Valid b s := valid_run b history
  have hw : Windowed b pair s (log b pair history) :=
    windowed_logFrom history (valid_start b) (windowed_start b pair)
  have hc' : (s.circuit pair).state = .closed := by rwa [← state_eq]
  constructor
  · intro success hr
    have hrec := recordCall_closed hc' b s.now success
    simp only [recent_of_windowed hw hc success, Trips] at hrec
    simp only [after, state_eq, circuit_of_reported hv hr]
    refine ⟨hrec.1, fun ho => ?_⟩
    rw [hrec.2 ho]
    exact ⟨hc', rfl⟩
  · intro hr
    simp only [after, state_eq]
    exact (closed_of_unreported hv hc' hr).1

/-- Two failures are as old as the window when a success is reported; all three count, and the
success opens the circuit. -/
theorem success_opens_at_window_edge :
    let b : Settings.Breaker := { minRequests := 3, failureRatio := 0.5, windowSecs := 1 }
    let history : List Event := [.ask "a->b", .ask "a->b", .ask "a->b", .record 0 false,
      .record 1 false, .wait 1000]
    ((start b).run history).state "a->b" = .closed ∧
      (((start b).run history).apply (.record 2 true)).state "a->b" = .opened := by
  intro b history
  have hc : ((start b).run history).state "a->b" = .closed := by decide
  have h := (opens_iff_window_trips b history "a->b" (.record 2 true) hc).1 true (by decide)
  exact ⟨hc, h.1.mpr ⟨by decide, by decide +kernel⟩⟩

end Circuits.Session

end RuleExchange
