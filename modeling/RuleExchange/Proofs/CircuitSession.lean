import Mathlib.Logic.Function.Basic
import RuleExchange.Engine.Circuit
import RuleExchange.Proofs.Members

/-! Sessions of callers with the circuits. A caller asks to be let in and keeps the permit
it is given; later it reports the outcome of its call or drops the permit, each permit
once, in any order and at any time. A session keeps the permits that were given out and
counts, for each pair, how often its circuit has become half open. Events that concern
one pair leave the circuits of all other pairs alone. -/

namespace RuleExchange

namespace Circuit

theorem thaw_of_ne_opened {c : Circuit} (h : c.state ≠ .opened) (now : Nat) :
    c.thaw now = c := by
  unfold thaw
  split <;> simp_all

/-- Only a circuit that has cooled down thaws; it forgets its trials then. -/
theorem thaw_cases (c : Circuit) (now : Nat) :
    c.thaw now = c ∧ (c.state = .opened → ∃ limit, c.openUntil = some limit ∧ now < limit) ∨
    c.state = .opened ∧
      c.thaw now = { c with state := .halfOpen, openUntil := none, trialsInFlight := 0 } := by
  by_cases h : c.state = .opened
  · cases hu : c.openUntil with
    | none => exact .inr ⟨h, by simp [thaw, h, hu]⟩
    | some limit =>
      by_cases hl : now < limit
      · exact .inl ⟨by simp [thaw, h, hu, hl], fun _ => ⟨limit, rfl, hl⟩⟩
      · exact .inr ⟨h, by simp [thaw, h, hu, hl]⟩
  · exact .inl ⟨thaw_of_ne_opened h now, fun ho => absurd ho h⟩

theorem enter_closed {c : Circuit} (h : c.state = .closed) (b : Settings.Breaker) (now : Nat) :
    c.enter b now = (c, .ok false) := by
  simp [enter, thaw_of_ne_opened (c := c) (by simp [h]), h]

theorem enter_halfOpen {c : Circuit} (h : c.state = .halfOpen) (b : Settings.Breaker)
    (now : Nat) :
    c.enter b now = if b.halfOpenMax ≤ c.trialsInFlight then (c, .error trialRetryMs)
      else ({ c with trialsInFlight := c.trialsInFlight + 1 }, .ok true) := by
  simp [enter, thaw_of_ne_opened (c := c) (by simp [h]), h]

/-- An open circuit refuses and stays as it is, or it thaws and is entered half open. -/
theorem enter_opened {c : Circuit} (h : c.state = .opened) (b : Settings.Breaker) (now : Nat) :
    (∃ ms, c.enter b now = (c, .error ms)) ∨
      c.enter b now =
        enter b now { c with state := .halfOpen, openUntil := none, trialsInFlight := 0 } := by
  rcases thaw_cases c now with ⟨hc, -⟩ | ⟨-, hc⟩
  · refine .inl ⟨max 1 (min maxMillis (c.openUntil.getD now - now)), ?_⟩
    simp [enter, hc, h]
  · right
    rw [enter, hc, enter, thaw_of_ne_opened (by simp)]

theorem enter_ne_closed {c : Circuit} (h : c.state ≠ .closed) (b : Settings.Breaker)
    (now : Nat) : (c.enter b now).1.state ≠ .closed := by
  cases hc : c.state with
  | closed => exact absurd hc h
  | halfOpen =>
    rw [enter_halfOpen hc]
    split <;> simp [hc]
  | opened =>
    rcases enter_opened hc b now with ⟨ms, he⟩ | he
    · simp [he, hc]
    · rw [he, enter_halfOpen rfl]
      split <;> simp

@[simp] theorem state_trip (b : Settings.Breaker) (now : Nat) (c : Circuit) :
    (c.trip b now).state = .opened := by
  unfold trip
  split <;> rfl

@[simp] theorem trialsInFlight_trip (b : Settings.Breaker) (now : Nat) (c : Circuit) :
    (c.trip b now).trialsInFlight = c.trialsInFlight := by
  unfold trip
  split <;> rfl

@[simp] theorem record_trial (b : Settings.Breaker) (now : Nat) (success : Bool) (c : Circuit) :
    c.record b now true success = c.recordTrial b now success := rfl

@[simp] theorem record_call (b : Settings.Breaker) (now : Nat) (success : Bool) (c : Circuit) :
    c.record b now false success = c.recordCall b now success := rfl

theorem recordCall_of_ne_closed {c : Circuit} (h : c.state ≠ .closed) (b : Settings.Breaker)
    (now : Nat) (success : Bool) : c.recordCall b now success = c := by
  simp [recordCall, h]

theorem recordTrial_of_ne_halfOpen {c : Circuit} (h : c.state ≠ .halfOpen)
    (b : Settings.Breaker) (now : Nat) (success : Bool) :
    c.recordTrial b now success = c.freeTrial := by
  simp [recordTrial, freeTrial, h]

/-- A trial that is recorded ends the half open episode, one way or the other. -/
theorem recordTrial_halfOpen {c : Circuit} (h : c.state = .halfOpen) (b : Settings.Breaker)
    (now : Nat) (success : Bool) :
    (c.recordTrial b now success).state = if success then .closed else .opened := by
  cases success <;> simp [recordTrial, freeTrial, h]

/-- Only a report that is not counted leaves a circuit half open. -/
theorem record_halfOpen {c : Circuit} {b : Settings.Breaker} {now : Nat} {trial success : Bool}
    (h : (c.record b now trial success).state = .halfOpen) :
    trial = false ∧ c.record b now trial success = c := by
  cases trial with
  | false =>
    by_cases hc : c.state = .closed
    · simp only [record_call, recordCall, hc, ne_eq, not_true_eq_false, if_false] at h
      split at h
      · simp at h
      · simp at h
    · exact ⟨rfl, recordCall_of_ne_closed hc b now success⟩
  | true =>
    exfalso
    by_cases hc : c.state = .halfOpen
    · rw [record_trial, recordTrial_halfOpen hc] at h
      split at h <;> cases h
    · rw [record_trial, recordTrial_of_ne_halfOpen hc] at h
      exact hc h

end Circuit

namespace Circuits

@[simp] theorem get?_put_self (cs : Circuits) (pair : String) (c : Circuit) :
    (cs.put pair c).get? pair = some c := by
  simp [put, get?]

theorem get?_put_of_ne (cs : Circuits) {pair other : String} (h : other ≠ pair) (c : Circuit) :
    (cs.put pair c).get? other = cs.get? other := by
  simp [put, get?, Json.lookup_insertMember_of_ne h]

theorem state_eq (cs : Circuits) (pair : String) :
    cs.state pair = ((cs.get? pair).getD {}).state := by
  unfold state
  cases cs.get? pair <;> rfl

theorem get?_modify (cs : Circuits) (pair other : String) (f : Circuit → Circuit) :
    (cs.modify pair f).get? other =
      if other = pair then (cs.get? pair).map f else cs.get? other := by
  unfold modify
  by_cases ho : other = pair
  · subst ho
    cases h : cs.get? other <;> simp [h]
  · cases h : cs.get? pair <;> simp [ho, get?_put_of_ne]

@[simp] theorem settings_modify (cs : Circuits) (pair : String) (f : Circuit → Circuit) :
    (cs.modify pair f).settings = cs.settings := by
  unfold modify
  cases cs.get? pair <;> rfl

/-- A permit that was given out. -/
structure Grant where
  permit : Permit
  /-- How often the circuit had become half open by then. -/
  episode : Nat
  resolved : Bool := false
  deriving DecidableEq, Repr

structure Session where
  circuits : Circuits
  now : Nat := 0
  /-- In the order in which they were given. -/
  grants : List Grant := []
  /-- How often the circuit of a pair has become half open. -/
  episode : String → Nat := fun _ => 0

inductive Event where
  | ask (pair : String)
  | record (grant : Nat) (success : Bool)
  | drop (grant : Nat)
  | wait (ms : Nat)
  deriving DecidableEq, Repr

namespace Session

def start (b : Settings.Breaker) : Session := { circuits := { settings := b } }

def circuit (s : Session) (pair : String) : Circuit := (s.circuits.get? pair).getD {}

def state (s : Session) (pair : String) : CircuitState := s.circuits.state pair

/-- The episode of a pair's circuit after it has been entered. -/
def entered (s : Session) (pair : String) : Nat :=
  let after := (s.circuits.enter s.now pair).1
  if s.state pair ≠ .halfOpen ∧ after.state pair = .halfOpen then s.episode pair + 1
  else s.episode pair

def ask (s : Session) (pair : String) : Session :=
  let (circuits, answer) := s.circuits.enter s.now pair
  let grants := match answer with
    | .ok permit => s.grants ++ [⟨permit, s.entered pair, false⟩]
    | .error _ => s.grants
  { s with circuits, grants, episode := Function.update s.episode pair (s.entered pair) }

/-- A permit that is still out. -/
def pending? (s : Session) (i : Nat) : Option Grant := s.grants[i]?.filter (!·.resolved)

def settle (s : Session) (i : Nat) : List Grant :=
  s.grants.modify i fun g => { g with resolved := true }

/-- What an event does; a permit that is not out cannot be used. -/
def apply (s : Session) : Event → Session
  | .ask pair => s.ask pair
  | .record i success =>
    match s.pending? i with
    | some g =>
      { s with circuits := s.circuits.record s.now g.permit success, grants := s.settle i }
    | none => s
  | .drop i =>
    match s.pending? i with
    | some g => { s with circuits := s.circuits.release g.permit, grants := s.settle i }
    | none => s
  | .wait ms => { s with now := s.now + ms }

def run (s : Session) (history : List Event) : Session := history.foldl apply s

theorem state_eq (s : Session) (pair : String) : s.state pair = (s.circuit pair).state :=
  Circuits.state_eq s.circuits pair

theorem pending?_eq_some {s : Session} {i : Nat} {g : Grant} (h : s.pending? i = some g) :
    s.grants[i]? = some g ∧ g.resolved = false := by
  simpa [pending?, Option.filter_eq_some_iff] using h

theorem mem_of_pending? {s : Session} {i : Nat} {g : Grant} (h : s.pending? i = some g) :
    g ∈ s.grants :=
  List.mem_of_getElem? (pending?_eq_some h).1

/-! ### The circuit of one pair -/

theorem circuit_ask_self (s : Session) (pair : String) :
    (s.apply (.ask pair)).circuit pair =
      ((s.circuit pair).enter s.circuits.settings s.now).1 := by
  simp [apply, ask, circuit, Circuits.enter]

theorem circuit_ask_of_ne (s : Session) {pair other : String} (h : other ≠ pair) :
    (s.apply (.ask pair)).circuit other = s.circuit other := by
  simp [apply, ask, circuit, Circuits.enter, get?_put_of_ne _ h]

theorem circuit_record_self {s : Session} {i : Nat} {g : Grant} (hg : s.pending? i = some g)
    (hk : (s.circuits.get? g.permit.pair).isSome) (success : Bool) :
    (s.apply (.record i success)).circuit g.permit.pair =
      (s.circuit g.permit.pair).record s.circuits.settings s.now g.permit.trial success := by
  obtain ⟨c, hc⟩ := Option.isSome_iff_exists.mp hk
  simp [apply, hg, circuit, Circuits.record, get?_modify, hc]

theorem circuit_record_of_ne {s : Session} {i : Nat} {g : Grant} (hg : s.pending? i = some g)
    {pair : String} (h : pair ≠ g.permit.pair) (success : Bool) :
    (s.apply (.record i success)).circuit pair = s.circuit pair := by
  simp [apply, hg, circuit, Circuits.record, get?_modify, h]

theorem circuit_drop_self {s : Session} {i : Nat} {g : Grant} (hg : s.pending? i = some g)
    (hk : (s.circuits.get? g.permit.pair).isSome) :
    (s.apply (.drop i)).circuit g.permit.pair =
      if g.permit.trial then (s.circuit g.permit.pair).freeTrial
      else s.circuit g.permit.pair := by
  obtain ⟨c, hc⟩ := Option.isSome_iff_exists.mp hk
  by_cases ht : g.permit.trial <;> simp [apply, hg, circuit, release, ht, get?_modify, hc]

theorem circuit_drop_of_ne {s : Session} {i : Nat} {g : Grant} (hg : s.pending? i = some g)
    {pair : String} (h : pair ≠ g.permit.pair) :
    (s.apply (.drop i)).circuit pair = s.circuit pair := by
  by_cases ht : g.permit.trial <;> simp [apply, hg, circuit, release, ht, get?_modify, h]

theorem apply_record_none {s : Session} {i : Nat} (h : s.pending? i = none) (success : Bool) :
    s.apply (.record i success) = s := by
  simp [apply, h]

theorem apply_drop_none {s : Session} {i : Nat} (h : s.pending? i = none) :
    s.apply (.drop i) = s := by
  simp [apply, h]

/-! ### What holds in every session -/

/-- Settings stay, permits belong to circuits that exist, and no permit comes from an episode
that has not begun. -/
structure Valid (b : Settings.Breaker) (s : Session) : Prop where
  settings : s.circuits.settings = b
  known : ∀ g ∈ s.grants, (s.circuits.get? g.permit.pair).isSome
  begun : ∀ g ∈ s.grants, g.episode ≤ s.episode g.permit.pair

theorem valid_start (b : Settings.Breaker) : Valid b (start b) :=
  ⟨rfl, by simp [start], by simp [start]⟩

theorem entered_eq (s : Session) (pair : String) :
    s.entered pair =
      if (s.circuit pair).state ≠ .halfOpen ∧
          ((s.circuit pair).enter s.circuits.settings s.now).1.state = .halfOpen
      then s.episode pair + 1 else s.episode pair := by
  have hafter : (s.circuits.enter s.now pair).1.state pair =
      ((s.circuit pair).enter s.circuits.settings s.now).1.state := by
    simp [Circuits.state_eq, Circuits.enter, circuit]
  dsimp only [entered]
  rw [state_eq, hafter]

theorem le_entered (s : Session) (pair : String) : s.episode pair ≤ s.entered pair := by
  simp only [entered]
  split <;> omega

/-- Who is let in keeps a permit of the episode that it finds. -/
theorem grants_ask (s : Session) (pair : String) :
    (s.apply (.ask pair)).grants =
      match ((s.circuit pair).enter s.circuits.settings s.now).2 with
      | .ok trial => s.grants ++ [⟨⟨pair, trial⟩, s.entered pair, false⟩]
      | .error _ => s.grants := by
  simp only [apply, ask, Circuits.enter, circuit]
  cases ((s.circuits.get? pair).getD {}).enter s.circuits.settings s.now with
  | mk c answer => cases answer <;> rfl

theorem mem_grants_ask {s : Session} {pair : String} {g : Grant}
    (h : g ∈ (s.apply (.ask pair)).grants) :
    g ∈ s.grants ∨ g.permit.pair = pair ∧ g.episode = s.entered pair := by
  rw [grants_ask] at h
  split at h
  · rcases List.mem_append.mp h with h | h
    · exact .inl h
    · cases List.mem_singleton.mp h
      exact .inr ⟨rfl, rfl⟩
  · exact .inl h

theorem mem_settle {s : Session} {i : Nat} {g : Grant} (h : g ∈ s.settle i) :
    ∃ g' ∈ s.grants, g'.permit = g.permit ∧ g'.episode = g.episode := by
  obtain ⟨j, hj⟩ := List.mem_iff_getElem?.mp h
  rw [settle, List.getElem?_modify] at hj
  obtain ⟨g', hg', he⟩ := Option.map_eq_some_iff.mp hj
  refine ⟨g', List.mem_of_getElem? hg', ?_⟩
  split at he <;> cases he <;> exact ⟨rfl, rfl⟩

theorem isSome_get?_modify (cs : Circuits) (pair other : String) (f : Circuit → Circuit) :
    ((cs.modify pair f).get? other).isSome = (cs.get? other).isSome := by
  rw [get?_modify]
  split
  · rename_i h
    simp [h]
  · rfl

theorem valid_apply {b : Settings.Breaker} {s : Session} (h : Valid b s) (ev : Event) :
    Valid b (s.apply ev) := by
  cases ev with
  | ask pair =>
    refine ⟨h.settings, ?_, ?_⟩
    · intro g hg
      by_cases hp : g.permit.pair = pair
      · simp [apply, ask, Circuits.enter, hp]
      · rcases mem_grants_ask hg with hg | hg
        · simpa [apply, ask, Circuits.enter, get?_put_of_ne _ hp] using h.known g hg
        · exact absurd hg.1 hp
    · intro g hg
      have hle := le_entered s pair
      by_cases hp : g.permit.pair = pair
      · rcases mem_grants_ask hg with hg | hg
        · have := h.begun g hg
          simp only [apply, ask, hp, Function.update_self] at this ⊢
          omega
        · simp [apply, ask, hg.1, hg.2]
      · rcases mem_grants_ask hg with hg | hg
        · simpa [apply, ask, Function.update_of_ne hp] using h.begun g hg
        · exact absurd hg.1 hp
  | record i success =>
    cases hp : s.pending? i with
    | none => rwa [apply_record_none hp]
    | some g =>
      simp only [apply, hp]
      refine ⟨by simp [Circuits.record, h.settings], ?_, ?_⟩
      · intro g' hg'
        obtain ⟨g₀, hg₀, hpe, -⟩ := mem_settle hg'
        simpa [Circuits.record, isSome_get?_modify, ← hpe] using h.known g₀ hg₀
      · intro g' hg'
        obtain ⟨g₀, hg₀, hpe, hep⟩ := mem_settle hg'
        simpa [← hpe, ← hep] using h.begun g₀ hg₀
  | drop i =>
    cases hp : s.pending? i with
    | none => rwa [apply_drop_none hp]
    | some g =>
      simp only [apply, hp]
      refine ⟨by by_cases ht : g.permit.trial <;> simp [release, ht, h.settings], ?_, ?_⟩
      · intro g' hg'
        obtain ⟨g₀, hg₀, hpe, -⟩ := mem_settle hg'
        by_cases ht : g.permit.trial <;>
          simpa [release, ht, isSome_get?_modify, ← hpe] using h.known g₀ hg₀
      · intro g' hg'
        obtain ⟨g₀, hg₀, hpe, hep⟩ := mem_settle hg'
        simpa [← hpe, ← hep] using h.begun g₀ hg₀
  | wait ms => exact ⟨h.settings, h.known, h.begun⟩

theorem valid_run (b : Settings.Breaker) (history : List Event) :
    Valid b ((start b).run history) :=
  List.foldlRecOn history apply (valid_start b) fun _ h ev _ => valid_apply h ev

/-- All that an event can do to the circuit of a pair. -/
theorem circuit_apply_cases {b : Settings.Breaker} {s : Session} (h : Valid b s)
    (pair : String) (ev : Event) :
    (s.apply ev).circuit pair = s.circuit pair ∨
    (ev = .ask pair ∧ (s.apply ev).circuit pair = ((s.circuit pair).enter b s.now).1) ∨
    (∃ i success g, ev = .record i success ∧ s.pending? i = some g ∧ g.permit.pair = pair ∧
      (s.apply ev).circuit pair =
        (s.circuit pair).record b s.now g.permit.trial success) ∨
    (∃ i g, ev = .drop i ∧ s.pending? i = some g ∧ g.permit = ⟨pair, true⟩ ∧
      (s.apply ev).circuit pair = (s.circuit pair).freeTrial) := by
  cases ev with
  | ask p =>
    by_cases hp : pair = p
    · subst hp
      exact .inr (.inl ⟨rfl, h.settings ▸ circuit_ask_self s pair⟩)
    · exact .inl (circuit_ask_of_ne s hp)
  | record i success =>
    cases hg : s.pending? i with
    | none => exact .inl (by rw [apply_record_none hg])
    | some g =>
      by_cases hp : pair = g.permit.pair
      · subst hp
        have hc := circuit_record_self hg (h.known g (mem_of_pending? hg)) success
        exact .inr (.inr (.inl ⟨i, success, g, rfl, hg, rfl, h.settings ▸ hc⟩))
      · exact .inl (circuit_record_of_ne hg hp success)
  | drop i =>
    cases hg : s.pending? i with
    | none => exact .inl (by rw [apply_drop_none hg])
    | some g =>
      by_cases hp : pair = g.permit.pair
      · subst hp
        have hc := circuit_drop_self hg (h.known g (mem_of_pending? hg))
        cases ht : g.permit.trial with
        | false => exact .inl (by simpa [ht] using hc)
        | true =>
          refine .inr (.inr (.inr ⟨i, g, rfl, hg, ?_, by simpa [ht] using hc⟩))
          rw [← ht]
      · exact .inl (circuit_drop_of_ne hg hp)
  | wait ms => exact .inl rfl

end Session

end Circuits

end RuleExchange
