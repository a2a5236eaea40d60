import RuleExchange.Proofs.TrialEpisodes
import RuleExchange.Proofs.TripRule
import RuleExchange.Settings.Check

/-! How circuits recover. An open circuit has a deadline and no other circuit has one, and
only a closed circuit remembers outcomes. A circuit never counts more trials than there
are trial permits out, so once these are resolved and the deadline has passed the next
caller is let in. The waiting time that an open circuit tells a caller is what is left of
its cooldown: until then every caller is refused, and then the first one is let in as a
trial. Waiting times are cut off at the largest number of 64 bits, and a cooldown that is
longer still is the one case in which a caller who waits as told is refused again. A
circuit whose cooldown ends past the last instant of the clock opens without a deadline
and keeps its outcomes; it is entered half open at once. -/

namespace RuleExchange

/-- A section that passes its check leaves room for a trial. -/
theorem Settings.Breaker.halfOpenMax_pos {b : Settings.Breaker} (h : b.check = .ok ()) :
    0 < b.halfOpenMax := by
  simp only [check, positive, share, Settings.check, bind, Except.bind] at h
  grind

namespace Circuit

/-- How long an open circuit still refuses callers. -/
def cooldownLeft (c : Circuit) (now : Nat) : Nat := c.openUntil.getD now - now

/-- A report frees its trial or is kept among the outcomes, or it closes the circuit, or it trips
it. -/
theorem record_cases (b : Settings.Breaker) (now : Nat) (trial success : Bool) (c : Circuit) :
    let r := c.record b now trial success
    (r.state = c.state ∧ r.openUntil = c.openUntil ∧
      (c.state ≠ .closed → r.outcomes = c.outcomes)) ∨
    (c.state = .halfOpen ∧ r = { c.freeTrial with state := .closed, outcomes := [] }) ∨
    (c.state ≠ .opened ∧ ∃ c' : Circuit, c'.openUntil = c.openUntil ∧ r = c'.trip b now) := by
  cases trial with
  | true =>
    by_cases hs : c.state = .halfOpen
    · cases success with
      | true => exact .inr (.inl ⟨hs, by simp [recordTrial, freeTrial, hs]⟩)
      | false =>
        exact .inr (.inr ⟨by simp [hs], c.freeTrial, rfl, by simp [recordTrial, freeTrial, hs]⟩)
    · rw [record_trial, recordTrial_of_ne_halfOpen hs]
      exact .inl ⟨rfl, rfl, fun _ => rfl⟩
  | false =>
    by_cases hs : c.state = .closed
    · let kept := recent (windowMs b) now (c.outcomes ++ [(now, success)])
      rw [record_call, recordCall, if_neg (by simp [hs])]
      dsimp only
      split
      · exact .inr (.inr ⟨by simp [hs], { c with outcomes := kept }, rfl, rfl⟩)
      · exact .inl ⟨rfl, rfl, fun hne => absurd hs hne⟩
    · rw [record_call, recordCall_of_ne_closed hs]
      exact .inl ⟨rfl, rfl, fun _ => rfl⟩

/-- Only an open circuit has a deadline. -/
def Dated (c : Circuit) : Prop := c.openUntil.isSome = true → c.state = .opened

theorem openUntil_eq_none {c : Circuit} (h : Dated c) (hs : c.state ≠ .opened) :
    c.openUntil = none := by
  by_contra hne
  exact hs (h (Option.isSome_iff_ne_none.mpr hne))

theorem dated_enter {c : Circuit} (h : Dated c) (b : Settings.Breaker) (now : Nat) :
    Dated (c.enter b now).1 := by
  cases hs : c.state with
  | closed => rwa [enter_closed hs]
  | halfOpen =>
    rw [enter_halfOpen hs]
    split <;> exact h
  | opened =>
    rcases enter_opened hs b now with ⟨ms, he⟩ | he
    · rwa [he]
    · rw [he, enter_halfOpen rfl]
      split <;> simp [Dated]

theorem dated_record {c : Circuit} (h : Dated c) (b : Settings.Breaker) (now : Nat)
    (trial success : Bool) : Dated (c.record b now trial success) := by
  rcases record_cases b now trial success c with ⟨hs, hu, -⟩ | ⟨hs, hr⟩ | ⟨-, c', -, hr⟩
  · rwa [Dated, hs, hu]
  · simp [Dated, hr, freeTrial, openUntil_eq_none h (by simp [hs])]
  · simp [Dated, hr]

/-- A deadline exactly while the circuit is open, and outcomes only while it is closed. -/
structure Coherent (c : Circuit) : Prop where
  deadline : c.openUntil.isSome = true ↔ c.state = .opened
  outcomes : c.state ≠ .closed → c.outcomes = []

theorem coherent_new : Coherent {} := ⟨by simp, fun h => absurd rfl h⟩

theorem coherent_freeTrial {c : Circuit} (h : Coherent c) : Coherent c.freeTrial :=
  ⟨h.deadline, h.outcomes⟩

theorem coherent_enter {c : Circuit} (h : Coherent c) (b : Settings.Breaker) (now : Nat) :
    Coherent (c.enter b now).1 := by
  -- whatever is half open, without a deadline and without outcomes stays so
  have half : ∀ {c : Circuit}, c.state = .halfOpen → Coherent c → Coherent (c.enter b now).1 := by
    intro c hs h
    rw [enter_halfOpen hs]
    split
    · exact h
    · exact ⟨h.deadline, h.outcomes⟩
  cases hs : c.state with
  | closed => rwa [enter_closed hs]
  | halfOpen => exact half hs h
  | opened =>
    rcases enter_opened hs b now with ⟨ms, he⟩ | he
    · rwa [he]
    · rw [he]
      exact half rfl ⟨by simp, fun _ => h.outcomes (by simp [hs])⟩

/-- A report keeps a circuit coherent unless it opens it too late for the clock. -/
theorem coherent_record {c : Circuit} (h : Coherent c) {b : Settings.Breaker} {now : Nat}
    {trial success : Bool}
    (hclock : c.state ≠ .opened → (c.record b now trial success).state = .opened →
      now + cooldownMs b ≤ lastInstant) : Coherent (c.record b now trial success) := by
  rcases record_cases b now trial success c with ⟨hs, hu, ho⟩ | ⟨hs, hr⟩ | ⟨hs, c', -, hr⟩
  · refine ⟨by rw [hs, hu, h.deadline], fun hne => ?_⟩
    rw [hs] at hne
    rw [ho hne, h.outcomes hne]
  · have hu := openUntil_eq_none h.deadline.mp (by simp [hs])
    rw [hr]
    exact ⟨by simp [freeTrial, hu], fun _ => rfl⟩
  · have hle := hclock hs (by rw [hr, state_trip])
    rw [hr, trip, if_pos hle]
    exact ⟨by simp, fun _ => rfl⟩

/-- An open circuit refuses until its deadline and is entered half open from then on. -/
theorem enter_until {c : Circuit} (h : c.state = .opened) {limit : Nat}
    (hu : c.openUntil = some limit) (b : Settings.Breaker) (now : Nat) :
    c.enter b now =
      if now < limit then (c, .error (max 1 (min maxMillis (limit - now))))
      else enter b now { c with state := .halfOpen, openUntil := none, trialsInFlight := 0 } := by
  by_cases hl : now < limit
  · simp [enter, thaw, h, hu, hl]
  · simp [enter, thaw, h, hu, hl]

/-- An open circuit without a deadline is entered half open at any time. -/
theorem enter_undated {c : Circuit} (h : c.state = .opened) (hu : c.openUntil = none)
    (b : Settings.Breaker) (now : Nat) :
    c.enter b now =
      enter b now { c with state := .halfOpen, openUntil := none, trialsInFlight := 0 } := by
  simp [enter, thaw, h, hu]

/-- No circuit opens because a caller asks. -/
theorem enter_ne_opened {c : Circuit} (h : c.state ≠ .opened) (b : Settings.Breaker)
    (now : Nat) : (c.enter b now).1.state ≠ .opened := by
  cases hs : c.state with
  | closed => simp [enter_closed hs, hs]
  | halfOpen =>
    rw [enter_halfOpen hs]
    split <;> simp [hs]
  | opened => exact absurd hs h

/-- A circuit without trials lets the next caller in once its deadline has passed. -/
theorem enter_granted {c : Circuit} {b : Settings.Breaker} (hk : 0 < b.halfOpenMax) {now : Nat}
    (h0 : c.trialsInFlight = 0) (hu : ∀ limit, c.openUntil = some limit → limit ≤ now) :
    ∃ trial, (c.enter b now).2 = .ok trial := by
  have half : ∀ {c : Circuit}, c.state = .halfOpen → c.trialsInFlight = 0 →
      ∃ trial, (c.enter b now).2 = .ok trial := by
    intro c hs h0
    exact ⟨true, by rw [enter_halfOpen hs, if_neg (by omega)]⟩
  cases hs : c.state with
  | closed => exact ⟨false, by rw [enter_closed hs]⟩
  | halfOpen => exact half hs h0
  | opened =>
    cases hl : c.openUntil with
    | none =>
      rw [enter_undated hs hl]
      exact half rfl rfl
    | some limit =>
      have hle := hu limit hl
      rw [enter_until hs hl, if_neg (by omega)]
      exact half rfl rfl

/-- Deadlines are not further away than the cooldown. -/
def Near (b : Settings.Breaker) (now : Nat) (c : Circuit) : Prop :=
  ∀ limit, c.openUntil = some limit → limit ≤ now + cooldownMs b

theorem near_enter {b : Settings.Breaker} {now : Nat} {c : Circuit} (h : Near b now c) :
    Near b now (c.enter b now).1 := by
  cases hs : c.state with
  | closed => rwa [enter_closed hs]
  | halfOpen =>
    rw [enter_halfOpen hs]
    split
    · exact h
    · exact h
  | opened =>
    rcases enter_opened hs b now with ⟨ms, he⟩ | he
    · rwa [he]
    · rw [he, enter_halfOpen rfl]
      split
      · simp [Near]
      · simp [Near]

theorem near_record {b : Settings.Breaker} {now : Nat} {c : Circuit} (h : Near b now c)
    (trial success : Bool) : Near b now (c.record b now trial success) := by
  rcases record_cases b now trial success c with ⟨-, hu, -⟩ | ⟨-, hr⟩ | ⟨-, c', hu, hr⟩
  · rwa [Near, hu]
  · rw [hr]
    exact h
  · rw [hr, trip]
    split
    · rintro limit ⟨⟩
      exact le_rfl
    · rwa [Near, hu]

end Circuit

namespace Circuits.Session

open Circuit History

/-- The answer to a caller who asks now. -/
def answer (s : Session) (pair : String) : Except Failure Permit :=
  (s.circuits.enter s.now pair).2

/-- Whether an event asks for the pair or uses a permit of it. -/
def concerns (s : Session) (pair : String) : Event → Bool
  | .ask p => p = pair
  | .record i _ => (s.pending? i).any fun g => g.permit.pair = pair
  | .drop i => (s.pending? i).any fun g => g.permit.pair = pair
  | .wait _ => false

/-- A trial of a pair, of whatever episode, that is still out. -/
def isTrialOut (pair : String) (g : Grant) : Bool := g.permit = ⟨pair, true⟩ && !g.resolved

/-- Whether an event opens the circuit of a pair too late for the clock to show the end of its
cooldown. -/
def breaksOff (s : Session) (pair : String) (ev : Event) : Bool :=
  s.state pair ≠ .opened && (s.apply ev).state pair = .opened &&
    lastInstant < s.now + cooldownMs s.circuits.settings

def trialsOut (s : Session) (pair : String) : Nat := s.grants.countP (isTrialOut pair)

theorem answer_eq (s : Session) (pair : String) :
    s.answer pair =
      match ((s.circuit pair).enter s.circuits.settings s.now).2 with
      | .ok trial => .ok ⟨pair, trial⟩
      | .error ms => .error (.circuitOpen pair ms) := rfl

/-! ### Trials that are out -/

theorem trialsOut_settle {s : Session} {i : Nat} {g : Grant} (hg : s.pending? i = some g)
    (pair : String) :
    (s.settle i).countP (isTrialOut pair) + (if g.permit = ⟨pair, true⟩ then 1 else 0) =
      s.trialsOut pair := by
  obtain ⟨hi, hr⟩ := pending?_eq_some hg
  have h := countP_modify (isTrialOut pair) (fun g => { g with resolved := true }) hi
  simpa [settle, trialsOut, isTrialOut, hr] using h

/-- A circuit does not count more trials than are out. -/
def Covered (s : Session) : Prop :=
  ∀ pair, (s.circuit pair).trialsInFlight ≤ s.trialsOut pair

theorem covered_ask {b : Settings.Breaker} {s : Session} (hv : Valid b s) (h : Covered s)
    (p : String) : Covered (s.apply (.ask p)) := by
  intro pair
  have hgrow : s.trialsOut pair ≤ (s.apply (.ask p)).trialsOut pair := by
    unfold trialsOut
    rw [grants_ask]
    split <;> simp [List.countP_append]
  by_cases hp : pair = p
  · subst hp
    rcases ask_cases hv pair with ⟨hc, -, -⟩ | ⟨-, -, hc, -, hg⟩ | ⟨-, -, -, hg⟩
    · rw [hc]
      exact (h pair).trans hgrow
    · have := h pair
      simp only [trialsOut] at this
      simp only [hc, trialsOut, hg, List.countP_append]
      simp [isTrialOut]
      omega
    · rcases hg with ⟨ht, -⟩ | ⟨ht, -, hg⟩
      · rw [ht]
        exact Nat.zero_le _
      · rw [ht, trialsOut, hg, List.countP_append]
        simp [isTrialOut]
  · rw [circuit_ask_of_ne s hp]
    exact (h pair).trans hgrow

theorem trialsInFlight_record (b : Settings.Breaker) (now : Nat) (trial success : Bool)
    (c : Circuit) :
    (c.record b now trial success).trialsInFlight =
      c.trialsInFlight - if trial then 1 else 0 := by
  cases trial with
  | true =>
    simp only [record_trial, recordTrial]
    split
    · rfl
    · split <;> simp [freeTrial]
  | false =>
    simp only [record_call, recordCall]
    split
    · rfl
    · split <;> simp

/-- A trial permit that is used up is taken off the count of its circuit, if there is anything
to take off. -/
theorem covered_settle {s after : Session} (h : Covered s) {i : Nat} {g : Grant}
    (hg : s.pending? i = some g) (hgrants : after.grants = s.settle i)
    (hown : (after.circuit g.permit.pair).trialsInFlight =
      (s.circuit g.permit.pair).trialsInFlight - if g.permit.trial then 1 else 0)
    (hother : ∀ pair, pair ≠ g.permit.pair → after.circuit pair = s.circuit pair) :
    Covered after := by
  intro pair
  have hle := h pair
  have hout : after.trialsOut pair + (if g.permit = ⟨pair, true⟩ then 1 else 0) =
      s.trialsOut pair := by
    rw [← trialsOut_settle hg, trialsOut, hgrants]
  by_cases hp : pair = g.permit.pair
  · subst hp
    have hpe : g.permit = ⟨g.permit.pair, true⟩ ↔ g.permit.trial = true :=
      ⟨fun he => by rw [he], fun ht => by rw [← ht]⟩
    simp only [hpe] at hout
    rw [hown]
    omega
  · rw [if_neg fun he => hp (by rw [he])] at hout
    rw [hother pair hp]
    omega

theorem covered_apply {b : Settings.Breaker} {s : Session} (hv : Valid b s) (h : Covered s)
    (ev : Event) : Covered (s.apply ev) := by
  cases ev with
  | ask pair => exact covered_ask hv h pair
  | record i success =>
    cases hg : s.pending? i with
    | none => rwa [apply_record_none hg]
    | some g =>
      refine covered_settle h hg (by simp [apply, hg]) ?_
        fun pair hp => circuit_record_of_ne hg hp success
      rw [circuit_record_self hg (hv.known g (mem_of_pending? hg)), trialsInFlight_record]
  | drop i =>
    cases hg : s.pending? i with
    | none => rwa [apply_drop_none hg]
    | some g =>
      refine covered_settle h hg (by simp [apply, hg]) ?_ fun pair hp => circuit_drop_of_ne hg hp
      rw [circuit_drop_self hg (hv.known g (mem_of_pending? hg))]
      split <;> rfl
  | wait ms => exact h

/-! ### What holds after every history -/

/-- Only open circuits have deadlines, these are near, and trials that are counted are out. -/
structure Steady (b : Settings.Breaker) (s : Session) : Prop where
  valid : Valid b s
  dated : ∀ pair, Dated (s.circuit pair)
  near : ∀ pair, Near b s.now (s.circuit pair)
  covered : Covered s

theorem steady_start (b : Settings.Breaker) : Steady b (start b) where
  valid := valid_start b
  dated _ h := by cases h
  near _ _ h := by cases h
  covered _ := Nat.zero_le _

theorem near_mono {b : Settings.Breaker} {now later : Nat} {c : Circuit} (h : Near b now c)
    (hle : now ≤ later) : Near b later c := fun limit hl => by
  have := h limit hl
  omega

/-- What a circuit's own operations keep, every event keeps. -/
theorem circuit_apply_keeps {b : Settings.Breaker} {s : Session} (hv : Valid b s)
    {I : Circuit → Prop} (henter : ∀ c, I c → I (c.enter b s.now).1)
    (hrecord : ∀ c trial success, I c → I (c.record b s.now trial success))
    (hfree : ∀ c, I c → I c.freeTrial) {pair : String} (h : I (s.circuit pair)) (ev : Event) :
    I ((s.apply ev).circuit pair) := by
  rcases circuit_apply_cases hv pair ev with
    he | ⟨-, he⟩ | ⟨i, success, g, -, -, -, he⟩ | ⟨i, g, -, -, -, he⟩
  · rwa [he]
  · rw [he]
    exact henter _ h
  · rw [he]
    exact hrecord _ _ success h
  · rw [he]
    exact hfree _ h

theorem steady_apply {b : Settings.Breaker} {s : Session} (h : Steady b s) (ev : Event) :
    Steady b (s.apply ev) where
  valid := valid_apply h.valid ev
  dated pair :=
    circuit_apply_keeps (I := Dated) h.valid (fun _ hc => dated_enter hc b s.now)
      (fun _ trial success hc => dated_record hc b s.now trial success) (fun _ hc => hc)
      (h.dated pair) ev
  near pair :=
    near_mono (circuit_apply_keeps h.valid (fun _ hc => near_enter hc)
      (fun _ trial success hc => near_record hc trial success) (fun _ hc => hc)
      (h.near pair) ev) (now_le_apply s ev)
  covered := covered_apply h.valid h.covered ev

theorem steady_run (b : Settings.Breaker) (history : List Event) :
    Steady b ((start b).run history) :=
  List.foldlRecOn history apply (steady_start b) fun _ h ev _ => steady_apply h ev

theorem coherent_apply {b : Settings.Breaker} {s : Session} (h : Valid b s) {pair : String}
    {ev : Event} (hc : Coherent (s.circuit pair)) (hev : s.breaksOff pair ev = false) :
    Coherent ((s.apply ev).circuit pair) := by
  rcases circuit_apply_cases h pair ev with
    he | ⟨-, he⟩ | ⟨i, success, g, -, -, -, he⟩ | ⟨i, g, -, -, -, he⟩
  · rwa [he]
  · rw [he]
    exact coherent_enter hc b s.now
  · rw [he]
    refine coherent_record hc fun hbefore hafter => ?_
    rw [← he, ← state_eq] at hafter
    rw [← state_eq] at hbefore
    simpa [breaksOff, hbefore, hafter, h.settings] using hev
  · rw [he]
    exact coherent_freeTrial hc

/-- A circuit that no report has opened too late for the clock is coherent. -/
theorem coherent_run {b : Settings.Breaker} {history : List Event} {pair : String}
    (h : Along apply (fun s ev => s.breaksOff pair ev = false) (start b) history) :
    Coherent (((start b).run history).circuit pair) :=
  (foldl_invariant (I := fun s => Valid b s ∧ Coherent (s.circuit pair))
    ⟨valid_start b, coherent_new⟩
    (fun _ ev hs hev => ⟨valid_apply hs.1 ev, coherent_apply hs.1 hs.2 hev⟩) h).2

/-- A circuit that opens too late for the clock has no deadline. -/
theorem openUntil_of_breaksOff {b : Settings.Breaker} {s : Session} (h : Steady b s)
    {pair : String} {ev : Event} (hev : s.breaksOff pair ev = true) :
    ((s.apply ev).circuit pair).openUntil = none := by
  obtain ⟨⟨hbefore, hafter⟩, hlate⟩ := by simpa [breaksOff, h.valid.settings] using hev
  rw [state_eq] at hbefore hafter
  have hu := openUntil_eq_none (h.dated pair) hbefore
  rcases circuit_apply_cases h.valid pair ev with
    he | ⟨-, he⟩ | ⟨i, success, g, -, -, -, he⟩ | ⟨i, g, -, -, -, he⟩
  · rw [he] at hafter
    exact absurd hafter hbefore
  · rw [he] at hafter
    exact absurd hafter (enter_ne_opened hbefore b s.now)
  · rcases record_cases b s.now g.permit.trial success (s.circuit pair) with
      ⟨-, hr, -⟩ | ⟨-, hr⟩ | ⟨-, c', hc', hr⟩
    · rw [he, hr, hu]
    · rw [he, hr]
      exact hu
    · rw [he, hr, trip, if_neg (Nat.not_le.mpr hlate)]
      exact hc'.trans hu
  · rw [he]
    exact hu

/-- With no trial permit out, no trial is counted. -/
theorem trialsInFlight_eq_zero {b : Settings.Breaker} {s : Session} (h : Steady b s)
    {pair : String} (hout : ∀ g ∈ s.grants, g.permit = ⟨pair, true⟩ → g.resolved = true) :
    (s.circuit pair).trialsInFlight = 0 := by
  have hcount : s.trialsOut pair = 0 := by
    simp only [trialsOut, List.countP_eq_zero]
    intro g hg
    by_cases hp : g.permit = ⟨pair, true⟩
    · simp [isTrialOut, hout g hg hp]
    · simp [isTrialOut, hp]
  have hcovered := h.covered pair
  omega

theorem cooldownLeft_le {b : Settings.Breaker} {s : Session} (h : Steady b s) (pair : String) :
    (s.circuit pair).cooldownLeft s.now ≤ cooldownMs b := by
  cases hu : (s.circuit pair).openUntil with
  | none => simp [cooldownLeft, hu]
  | some limit =>
    have hnear := h.near pair limit hu
    simp only [cooldownLeft, hu, Option.getD_some]
    omega

/-! ### Other pairs, and time that passes -/

/-- An event that does not concern a pair leaves its circuit alone. -/
theorem get?_apply_of_not_concerns {s : Session} {pair : String} {ev : Event}
    (h : s.concerns pair ev = false) :
    (s.apply ev).circuits.get? pair = s.circuits.get? pair := by
  cases ev with
  | ask p =>
    have hp : pair ≠ p := by simpa [concerns, eq_comm] using h
    simp [apply, ask, Circuits.enter, get?_put_of_ne _ hp]
  | record i success =>
    cases hg : s.pending? i with
    | none => rw [apply_record_none hg]
    | some g =>
      have hp : pair ≠ g.permit.pair := by simpa [concerns, hg, eq_comm] using h
      simp [apply, hg, Circuits.record, get?_modify, hp]
  | drop i =>
    cases hg : s.pending? i with
    | none => rw [apply_drop_none hg]
    | some g =>
      have hp : pair ≠ g.permit.pair := by simpa [concerns, hg, eq_comm] using h
      cases ht : g.permit.trial <;> simp [apply, hg, release, ht, get?_modify, hp]
  | wait ms => rfl

theorem circuit_run_of_not_concerns {s : Session} {pair : String} {later : List Event}
    (h : Along apply (fun s ev => s.concerns pair ev = false) s later) :
    (s.run later).circuit pair = s.circuit pair :=
  foldl_invariant (I := fun s' => s'.circuit pair = s.circuit pair) rfl
    (fun _ _ hi hc => by rw [← hi, circuit, circuit, get?_apply_of_not_concerns hc]) h

/-- A caller who is refused is told what is left of the cooldown, as far as it can be told. -/
theorem answer_of_opened {b : Settings.Breaker} {s : Session} (h : Steady b s) {pair : String}
    (ho : s.state pair = .opened) {r : Nat}
    (hr : s.answer pair = .error (.circuitOpen pair r)) (hk : 0 < b.halfOpenMax) :
    ∃ limit, (s.circuit pair).openUntil = some limit ∧ s.now < limit ∧
      r = min maxMillis (limit - s.now) := by
  rw [state_eq] at ho
  rw [answer_eq, h.valid.settings] at hr
  cases hl : (s.circuit pair).openUntil with
  | none =>
    rw [enter_undated ho hl, enter_halfOpen rfl, if_neg (Nat.not_le.mpr hk)] at hr
    cases hr
  | some limit =>
    rw [enter_until ho hl] at hr
    by_cases hlt : s.now < limit
    · rw [if_pos hlt] at hr
      have hmax : 0 < maxMillis := by decide
      refine ⟨limit, rfl, hlt, ?_⟩
      cases hr
      omega
    · rw [if_neg hlt, enter_halfOpen rfl, if_neg (Nat.not_le.mpr hk)] at hr
      cases hr

/-- A caller who is refused by an open circuit leaves all circuits as they were. -/
theorem get?_ask_of_refused {b : Settings.Breaker} {s : Session} (h : Steady b s)
    {pair : String} (ho : s.state pair = .opened) {r : Nat}
    (hr : s.answer pair = .error (.circuitOpen pair r)) (hk : 0 < b.halfOpenMax)
    (other : String) :
    (s.apply (.ask pair)).circuits.get? other = s.circuits.get? other := by
  by_cases hp : other = pair
  · subst hp
    obtain ⟨limit, hu, hlt, -⟩ := answer_of_opened h ho hr hk
    rw [state_eq] at ho
    -- an open circuit is not the one that unknown pairs start with
    have hsome : s.circuits.get? other = some (s.circuit other) := by
      cases hg : s.circuits.get? other with
      | none => simp [circuit, hg] at ho
      | some c => simp [circuit, hg]
    have henter : (s.circuit other).enter s.circuits.settings s.now =
        (s.circuit other, .error (max 1 (min maxMillis (limit - s.now)))) := by
      rw [enter_until ho hu, if_pos hlt]
    simp [apply, ask, Circuits.enter, hsome, henter]
  · exact get?_apply_of_not_concerns (by simpa [concerns, eq_comm] using hp)

/-- As long as nothing concerns the pair, callers are refused before the time that was told, and
when it comes the caller is let in as a trial unless the cooldown was too long to be told. -/
theorem answer_after_refusal {b : Settings.Breaker} {s : Session} (h : Steady b s)
    {pair : String} (ho : s.state pair = .opened) {r : Nat}
    (hr : s.answer pair = .error (.circuitOpen pair r)) (hk : 0 < b.halfOpenMax)
    {later : List Event} (hl : Along apply (fun s ev => s.concerns pair ev = false) s later) :
    ((s.run later).now < s.now + r →
      ∃ ms, (s.run later).answer pair = .error (.circuitOpen pair ms)) ∧
    ((s.run later).now = s.now + r →
      ((s.run later).answer pair = .ok ⟨pair, true⟩ ↔
        (s.circuit pair).cooldownLeft s.now ≤ maxMillis)) := by
  obtain ⟨limit, hu, hlt, rfl⟩ := answer_of_opened h ho hr hk
  have hsettings : (s.run later).circuits.settings = b :=
    (foldl_invariant (I := Steady b) h (fun _ ev hs _ => steady_apply hs ev) hl).valid.settings
  rw [state_eq] at ho
  rw [answer_eq, hsettings, circuit_run_of_not_concerns hl, enter_until ho hu]
  refine ⟨fun hbefore => ?_, fun hthen => ?_⟩
  · rw [if_pos (by omega)]
    exact ⟨_, rfl⟩
  · have hleft : (s.circuit pair).cooldownLeft s.now = limit - s.now := by
      simp [cooldownLeft, hu]
    rw [hleft]
    by_cases hcap : limit - s.now ≤ maxMillis
    · rw [if_neg (by omega), enter_halfOpen rfl, if_neg (Nat.not_le.mpr hk)]
      simp [hcap]
    · rw [if_pos (by omega)]
      simp [hcap]

/-- After every history, with settings that pass their check. A pair none of whose trial permits
is out lets the next caller in from the deadline on. A caller who is refused by an open circuit
changes nothing and is told a waiting time; while nothing else concerns the pair, callers are
refused before it is over and let in as a trial when it is over, unless more than the largest
waiting time was left. Only open circuits have deadlines. Unless its circuit was opened too late
for the clock to show the end of a cooldown, a pair has a deadline exactly while it is open and
outcomes only while it is closed; a circuit that opens so late has no deadline. Events that do
not concern a pair leave its circuit alone. -/
theorem recovers_and_tells_waiting_time (b : Settings.Breaker) (hb : b.check = .ok ())
    (history : List Event) (pair : String) :
    let s := (start b).run history
    (∀ t, (∀ g ∈ s.grants, g.permit = ⟨pair, true⟩ → g.resolved = true) →
      (∀ limit, (s.circuit pair).openUntil = some limit → limit ≤ t) →
      ∃ trial, (s.circuits.enter t pair).2 = .ok ⟨pair, trial⟩) ∧
    (∀ r, s.state pair = .opened → s.answer pair = .error (.circuitOpen pair r) →
      (∀ other, (s.apply (.ask pair)).circuits.get? other = s.circuits.get? other) ∧
      ∀ later, Along apply (fun s ev => s.concerns pair ev = false) s later →
        ((s.run later).now < s.now + r →
          ∃ ms, (s.run later).answer pair = .error (.circuitOpen pair ms)) ∧
        ((s.run later).now = s.now + r →
          ((s.run later).answer pair = .ok ⟨pair, true⟩ ↔
            (s.circuit pair).cooldownLeft s.now ≤ maxMillis) ∧
          (cooldownMs b ≤ maxMillis → (s.run later).answer pair = .ok ⟨pair, true⟩))) ∧
    ((s.circuit pair).openUntil.isSome = true → s.state pair = .opened) ∧
    (Along apply (fun s ev => s.breaksOff pair ev = false) (start b) history →
      ((s.circuit pair).openUntil.isSome = true ↔ s.state pair = .opened) ∧
      (s.state pair ≠ .closed → (s.circuit pair).outcomes = [])) ∧
    (∀ ev, s.breaksOff pair ev = true → ((s.apply ev).circuit pair).openUntil = none) ∧
    ∀ ev, s.concerns pair ev = false → (s.apply ev).circuits.get? pair = s.circuits.get? pair := by
  intro s
  have h : Steady b s := steady_run b history
  have hk := Settings.Breaker.halfOpenMax_pos hb
  refine ⟨?_, ?_, ?_, ?_, fun ev => openUntil_of_breaksOff h,
    fun ev => get?_apply_of_not_concerns⟩
  · intro t hout hdeadline
    obtain ⟨trial, ht⟩ :=
      enter_granted hk (trialsInFlight_eq_zero h hout) hdeadline
    refine ⟨trial, ?_⟩
    rw [← h.valid.settings] at ht
    simp only [circuit] at ht
    simp [Circuits.enter, ht]
  · intro r ho hr
    refine ⟨?_, fun later hl => ?_⟩
    · exact get?_ask_of_refused h ho hr hk
    · have hafter := answer_after_refusal h ho hr hk hl
      refine ⟨hafter.1, fun hthen => ⟨hafter.2 hthen, fun hfits => ?_⟩⟩
      exact (hafter.2 hthen).mpr (Nat.le_trans (cooldownLeft_le h pair) hfits)
  · rw [state_eq]
    exact h.dated pair
  · intro hhistory
    rw [state_eq]
    have hc := coherent_run hhistory
    exact ⟨hc.deadline, hc.outcomes⟩

/-- A caller who is refused 400 ms into a cooldown of one second is told to wait for 600 ms, and
is then let in as a trial, whatever happens to another pair in between. -/
theorem let_in_after_waiting_as_told :
    let b : Settings.Breaker := { minRequests := 1, cooldownSecs := 1, halfOpenMax := 2 }
    let s := (start b).run [.ask "a->b", .record 0 false, .wait 400]
    let later : List Event := [.ask "c->d", .wait 250, .record 1 false, .wait 350]
    s.answer "a->b" = .error (.circuitOpen "a->b" 600) ∧
      (s.run later).answer "a->b" = .ok ⟨"a->b", true⟩ := by
  intro b s later
  have hb : b.check = .ok () := by decide +kernel
  have ho : s.state "a->b" = .opened := by decide +kernel
  have hr : s.answer "a->b" = .error (.circuitOpen "a->b" 600) := by
    have he : ((s.circuit "a->b").enter s.circuits.settings s.now).2 = .error 600 := by
      decide +kernel
    rw [answer_eq, he]
  have hl : Along apply (fun s ev => s.concerns "a->b" ev = false) s later := by decide +kernel
  have hnow : (s.run later).now = s.now + 600 := by decide +kernel
  have h := recovers_and_tells_waiting_time b hb [.ask "a->b", .record 0 false, .wait 400] "a->b"
  exact ⟨hr, (((h.2.1 600 ho hr).2 later hl).2 hnow).2 (by decide)⟩

/-- After a cooldown that is too long to be told, a caller who waits for the largest number of
milliseconds is refused again. After a failure whose cooldown ends past the last instant of the
clock, the circuit is open without a deadline and still holds that failure. -/
theorem overlong_cooldowns_mislead :
    (let b : Settings.Breaker := { minRequests := 1, cooldownSecs := 18446744073709552 }
      let s := (start b).run [.ask "a->b", .record 0 false]
      let after := s.run [.wait 18446744073709551615]
      b.check = .ok () ∧ s.state "a->b" = .opened ∧
        s.answer "a->b" = .error (.circuitOpen "a->b" 18446744073709551615) ∧
        after.now = s.now + 18446744073709551615 ∧
        after.answer "a->b" = .error (.circuitOpen "a->b" 385)) ∧
    (let b : Settings.Breaker := { minRequests := 1, cooldownSecs := 9223372036854775808 }
      let s := (start b).run [.ask "a->b", .record 0 false]
      b.check = .ok () ∧ s.state "a->b" = .opened ∧ (s.circuit "a->b").openUntil = none ∧
        (s.circuit "a->b").outcomes = [(0, false)]) := by
  constructor
  · intro b s after
    have hs : ((s.circuit "a->b").enter s.circuits.settings s.now).2 =
        .error 18446744073709551615 := by decide +kernel
    have hafter : ((after.circuit "a->b").enter after.circuits.settings after.now).2 =
        .error 385 := by decide +kernel
    refine ⟨by decide +kernel, by decide +kernel, ?_, by decide +kernel, ?_⟩
    · rw [answer_eq, hs]
    · rw [answer_eq, hafter]
  · decide +kernel

end Circuits.Session

end RuleExchange
