import RuleExchange.Proofs.CircuitSession
import RuleExchange.Proofs.History

/-! Half open episodes. A circuit counts the trials it has let in since it became half open,
and a trial that is recorded or dropped is taken off that count. The permit of a trial does
not say which episode it comes from. A permit that outlives its episode is therefore taken
for one of the present episode: recording it ends the present episode, and dropping it
makes room for a trial too many. Episodes are isolated from each other exactly in those
histories in which no such permit is used while the circuit is half open, apart from
permits dropped when the count is already zero. With room for one trial at a time no permit
outlives its episode. -/

namespace RuleExchange.Circuits

/-- The permit that an event uses up. -/
def Event.grant? : Event → Option Nat
  | .record i _ => some i
  | .drop i => some i
  | .ask _ => none
  | .wait _ => none

namespace Session

open Circuit History

/-- A trial of the present half open episode of a pair that is still out. -/
def isProbe (s : Session) (pair : String) (g : Grant) : Bool :=
  g.permit = ⟨pair, true⟩ && !g.resolved && g.episode = s.episode pair

def probes (s : Session) (pair : String) : Nat := s.grants.countP (s.isProbe pair)

/-- The event uses a trial permit that comes from an earlier half open episode of the pair. -/
def Stale (s : Session) (pair : String) (ev : Event) : Prop :=
  ∃ g, ev.grant?.bind s.pending? = some g ∧ g.permit = ⟨pair, true⟩ ∧
    g.episode < s.episode pair

/-- Half open circuits count the trials of the present episode, and these are not too many. -/
def Counted (b : Settings.Breaker) (s : Session) : Prop :=
  ∀ pair, s.state pair = .halfOpen →
    (s.circuit pair).trialsInFlight = s.probes pair ∧ s.probes pair ≤ b.halfOpenMax

/-- A permit of an earlier episode changes neither the state of the circuit nor the count of a
half open one. -/
def Undisturbed (s : Session) (ev : Event) : Prop :=
  ∀ pair, s.Stale pair ev →
    (s.apply ev).state pair = s.state pair ∧
      (s.state pair = .halfOpen →
        ((s.apply ev).circuit pair).trialsInFlight = (s.circuit pair).trialsInFlight)

/-- Over a whole history every count is right and no permit disturbs a later episode. -/
def Isolated (b : Settings.Breaker) (history : List Event) : Prop :=
  (∀ before after, history = before ++ after → Counted b ((start b).run before)) ∧
    Along apply Undisturbed (start b) history

/-- A permit of an earlier episode is used while the circuit is half open; dropping it does
nothing only if no trial is counted. -/
def Meddles (s : Session) (ev : Event) : Prop :=
  ∃ pair, s.Stale pair ev ∧ s.state pair = .halfOpen ∧
    ((s.circuit pair).trialsInFlight = 0 → ∃ i success, ev = .record i success)

/-! ### One caller more -/

/-- All that a caller who asks can change for its own pair. -/
theorem ask_cases {b : Settings.Breaker} {s : Session} (hv : Valid b s) (pair : String) :
    let after := s.apply (.ask pair)
    (after.circuit pair = s.circuit pair ∧ after.episode pair = s.episode pair ∧
      (after.grants = s.grants ∨
        after.grants = s.grants ++ [⟨⟨pair, false⟩, s.episode pair, false⟩])) ∨
    (s.state pair = .halfOpen ∧ (s.circuit pair).trialsInFlight < b.halfOpenMax ∧
      after.circuit pair =
        { s.circuit pair with trialsInFlight := (s.circuit pair).trialsInFlight + 1 } ∧
      after.episode pair = s.episode pair ∧
      after.grants = s.grants ++ [⟨⟨pair, true⟩, s.episode pair, false⟩]) ∨
    (s.state pair = .opened ∧ (after.circuit pair).state = .halfOpen ∧
      after.episode pair = s.episode pair + 1 ∧
      ((after.circuit pair).trialsInFlight = 0 ∧ after.grants = s.grants ∨
        (after.circuit pair).trialsInFlight = 1 ∧ 0 < b.halfOpenMax ∧
          after.grants = s.grants ++ [⟨⟨pair, true⟩, s.episode pair + 1, false⟩])) := by
  intro after
  have hc : after.circuit pair = ((s.circuit pair).enter b s.now).1 :=
    hv.settings ▸ circuit_ask_self s pair
  have hg := grants_ask s pair
  have he : after.episode pair = s.entered pair := by simp [after, apply, ask]
  have hent := entered_eq s pair
  rw [hv.settings] at hg hent
  rw [he, hc, state_eq]
  cases hs : (s.circuit pair).state with
  | closed =>
    left
    rw [enter_closed hs] at hg hent ⊢
    simp only [hs] at hent
    exact ⟨rfl, by simpa using hent, .inr (by simpa [hent] using hg)⟩
  | halfOpen =>
    have hsame : s.entered pair = s.episode pair := by simpa [hs] using hent
    rw [enter_halfOpen hs] at hg ⊢
    by_cases hk : b.halfOpenMax ≤ (s.circuit pair).trialsInFlight
    · left
      rw [if_pos hk] at hg ⊢
      exact ⟨rfl, hsame, .inl hg⟩
    · right; left
      rw [if_neg hk] at hg ⊢
      exact ⟨rfl, by omega, rfl, hsame, by simpa [hsame] using hg⟩
  | opened =>
    rcases enter_opened hs b s.now with ⟨ms, hr⟩ | hr
    · left
      rw [hr] at hg hent ⊢
      exact ⟨rfl, by simpa [hs] using hent, .inl hg⟩
    · right; right
      rw [hr, enter_halfOpen rfl] at hg hent ⊢
      by_cases hk : b.halfOpenMax ≤ 0
      · rw [if_pos hk] at hg hent ⊢
        exact ⟨rfl, rfl, by simpa [hs] using hent, .inl ⟨rfl, hg⟩⟩
      · rw [if_neg hk] at hg hent ⊢
        have hnext : s.entered pair = s.episode pair + 1 := by simpa [hs] using hent
        exact ⟨rfl, rfl, hnext, .inr ⟨rfl, by omega, by simpa [hnext] using hg⟩⟩

/-! ### Counting probes -/

theorem countP_modify {α : Type} (p : α → Bool) (f : α → α) {l : List α} {i : Nat} {a : α}
    (h : l[i]? = some a) :
    (l.modify i f).countP p + (if p a then 1 else 0) =
      l.countP p + if p (f a) then 1 else 0 := by
  induction l generalizing i with
  | nil => simp at h
  | cons x rest ih =>
    cases i with
    | zero =>
      cases h
      simp only [List.modify_zero_cons, List.countP_cons]
      omega
    | succ i =>
      have := ih (i := i) (by simpa using h)
      simp only [List.modify_succ_cons, List.countP_cons]
      omega

/-- A permit that is used up was a probe or was not. -/
theorem probes_settle {s : Session} {i : Nat} {g : Grant} (hg : s.pending? i = some g)
    (pair : String) :
    (s.settle i).countP (s.isProbe pair) + (if s.isProbe pair g then 1 else 0) =
      s.probes pair := by
  have h := countP_modify (s.isProbe pair) (fun g => { g with resolved := true })
    (pending?_eq_some hg).1
  simpa [settle, probes, isProbe] using h

theorem probes_record {s : Session} {i : Nat} {g : Grant} (hg : s.pending? i = some g)
    (success : Bool) (pair : String) :
    (s.apply (.record i success)).probes pair + (if s.isProbe pair g then 1 else 0) =
      s.probes pair := by
  rw [← probes_settle hg]
  simp only [apply, hg, probes]
  rfl

theorem probes_drop {s : Session} {i : Nat} {g : Grant} (hg : s.pending? i = some g)
    (pair : String) :
    (s.apply (.drop i)).probes pair + (if s.isProbe pair g then 1 else 0) =
      s.probes pair := by
  rw [← probes_settle hg]
  simp only [apply, hg, probes]
  rfl

theorem isProbe_eq_false {s : Session} {pair : String} {g : Grant}
    (h : g.permit ≠ ⟨pair, true⟩ ∨ g.episode ≠ s.episode pair) : s.isProbe pair g = false := by
  rcases h with h | h <;> simp [isProbe, h]

/-- The probes after a caller has been given a permit, in the episode it was given in. -/
theorem probes_of_grants {s after : Session} {pair : String} {g : Grant}
    (he : after.episode pair = s.episode pair) (hg : after.grants = s.grants ++ [g]) :
    after.probes pair = s.probes pair + if s.isProbe pair g then 1 else 0 := by
  have hp : after.isProbe pair = s.isProbe pair := by
    funext g
    simp [isProbe, he]
  simp [probes, hp, hg, List.countP_append, List.countP_singleton]

theorem probes_congr {s after : Session} {pair : String}
    (he : after.episode pair = s.episode pair) (hg : after.grants = s.grants) :
    after.probes pair = s.probes pair := by
  have hp : after.isProbe pair = s.isProbe pair := by
    funext g
    simp [isProbe, he]
  simp [probes, hp, hg]

/-- An episode that has just begun has no probes but the one that began it. -/
theorem countP_isProbe_begin {b : Settings.Breaker} {s after : Session} (hv : Valid b s)
    {pair : String} (he : after.episode pair = s.episode pair + 1) :
    s.grants.countP (after.isProbe pair) = 0 := by
  rw [List.countP_eq_zero]
  intro g hg
  by_cases hp : g.permit = ⟨pair, true⟩
  · have hle : g.episode ≤ s.episode pair := by simpa [hp] using hv.begun g hg
    have hf : after.isProbe pair g = false := isProbe_eq_false (.inr (by omega))
    simp [hf]
  · have hf : after.isProbe pair g = false := isProbe_eq_false (.inl hp)
    simp [hf]

theorem probes_ask_of_ne (s : Session) {pair other : String} (h : other ≠ pair) :
    (s.apply (.ask pair)).probes other = s.probes other := by
  have he : (s.apply (.ask pair)).episode other = s.episode other := by
    simp [apply, ask, Function.update_of_ne h]
  have hg := grants_ask s pair
  split at hg
  · rw [probes_of_grants he hg, isProbe_eq_false (.inl (by simp [Ne.symm h]))]
    rfl
  · exact probes_congr he hg

/-! ### Exactly when episodes are isolated -/

theorem counted_start (b : Settings.Breaker) : Counted b (start b) := by
  intro pair h
  rw [state_eq] at h
  simp [start, circuit, get?] at h

theorem counted_ask {b : Settings.Breaker} {s : Session} (hv : Valid b s) (h : Counted b s)
    (pair : String) : Counted b (s.apply (.ask pair)) := by
  intro p hp
  by_cases hpp : p = pair
  · subst hpp
    rcases ask_cases hv p with ⟨hc, he, hg⟩ | ⟨hs, hk, hc, he, hg⟩ | ⟨-, -, he, hg⟩
    · rw [state_eq, hc, ← state_eq] at hp
      have hsame : (s.apply (.ask p)).probes p = s.probes p := by
        rcases hg with hg | hg
        · exact probes_congr he hg
        · rw [probes_of_grants he hg, isProbe_eq_false (.inl (by simp))]
          rfl
      rw [hc, hsame]
      exact h p hp
    · have hone : (s.apply (.ask p)).probes p = s.probes p + 1 := by
        rw [probes_of_grants he hg]
        simp [isProbe]
      have := h p hs
      simp only [hc, hone]
      omega
    · have h0 := countP_isProbe_begin hv he
      rcases hg with ⟨ht, hg⟩ | ⟨ht, hk, hg⟩
      · rw [ht, probes, hg, h0]
        exact ⟨rfl, Nat.zero_le _⟩
      · rw [ht, probes, hg, List.countP_append, h0]
        simp [isProbe, he]
        omega
  · rw [state_eq, circuit_ask_of_ne s hpp, ← state_eq] at hp
    rw [circuit_ask_of_ne s hpp, probes_ask_of_ne s hpp]
    exact h p hp

theorem counted_record {b : Settings.Breaker} {s : Session} (hv : Valid b s)
    (h : Counted b s) (i : Nat) (success : Bool) :
    Counted b (s.apply (.record i success)) := by
  intro p hp
  cases hg : s.pending? i with
  | none =>
    rw [apply_record_none hg] at hp ⊢
    exact h p hp
  | some g =>
    rw [state_eq] at hp
    -- a circuit that is half open after a report is as it was before
    have hsame : (s.apply (.record i success)).circuit p = s.circuit p ∧
        s.isProbe p g = false := by
      by_cases hpp : p = g.permit.pair
      · subst hpp
        have hc := circuit_record_self hg (hv.known g (mem_of_pending? hg)) success
        obtain ⟨ht, hr⟩ := record_halfOpen (hc ▸ hp)
        refine ⟨hc.trans hr, isProbe_eq_false (.inl fun hpe => ?_)⟩
        have := congrArg Permit.trial hpe
        simp [ht] at this
      · exact ⟨circuit_record_of_ne hg hpp success,
          isProbe_eq_false (.inl fun hpe => hpp (congrArg Permit.pair hpe).symm)⟩
    have hpr := probes_record hg success p
    simp only [hsame.2, Bool.false_eq_true, if_false, Nat.add_zero] at hpr
    rw [hsame.1, ← state_eq] at hp
    rw [hsame.1, hpr]
    exact h p hp

/-- Dropping a permit keeps the counts right unless the permit is of an earlier episode and
there is something to take off. -/
theorem counted_drop {b : Settings.Breaker} {s : Session} (hv : Valid b s) (h : Counted b s)
    {i : Nat} (hm : ¬ s.Meddles (.drop i)) : Counted b (s.apply (.drop i)) := by
  intro p hp
  cases hg : s.pending? i with
  | none =>
    rw [apply_drop_none hg] at hp ⊢
    exact h p hp
  | some g =>
    have hpr := probes_drop hg p
    by_cases hpe : g.permit = ⟨p, true⟩
    · have hc : (s.apply (.drop i)).circuit p = (s.circuit p).freeTrial := by
        have := circuit_drop_self hg (hv.known g (mem_of_pending? hg))
        simpa [hpe] using this
      have hs : s.state p = .halfOpen := by
        rw [state_eq, hc] at hp
        rw [state_eq]
        exact hp
      have hcount := h p hs
      have hle : g.episode ≤ s.episode p := by
        simpa [hpe] using hv.begun g (mem_of_pending? hg)
      rcases Nat.lt_or_eq_of_le hle with hlt | heq
      · have hzero : (s.circuit p).trialsInFlight = 0 := by
          by_contra hne
          exact hm ⟨p, ⟨g, hg, hpe, hlt⟩, hs, fun h0 => absurd h0 hne⟩
        rw [isProbe_eq_false (.inr (by omega))] at hpr
        simp only [Bool.false_eq_true, if_false, Nat.add_zero] at hpr
        simp only [hc, freeTrial, hpr]
        omega
      · have hprobe : s.isProbe p g = true := by
          simp [isProbe, hpe, heq, (pending?_eq_some hg).2]
        simp only [hprobe, if_true] at hpr
        simp only [hc, freeTrial]
        omega
    · have hc : (s.apply (.drop i)).circuit p = s.circuit p := by
        rcases circuit_apply_cases hv p (.drop i) with
          he | ⟨he, -⟩ | ⟨j, ok, g', he, -⟩ | ⟨j, g', he, hj, hpe', -⟩
        · exact he
        · cases he
        · cases he
        · cases he
          rw [hg] at hj
          cases hj
          exact absurd hpe' hpe
      rw [isProbe_eq_false (.inl hpe)] at hpr
      simp only [Bool.false_eq_true, if_false, Nat.add_zero] at hpr
      rw [state_eq, hc, ← state_eq] at hp
      rw [hc, hpr]
      exact h p hp

theorem counted_apply {b : Settings.Breaker} {s : Session} (hv : Valid b s) (h : Counted b s)
    {ev : Event} (hm : ¬ s.Meddles ev) : Counted b (s.apply ev) := by
  cases ev with
  | ask pair => exact counted_ask hv h pair
  | record i success => exact counted_record hv h i success
  | drop i => exact counted_drop hv h hm
  | wait ms => exact h

/-- An event that does not meddle leaves later episodes alone. -/
theorem undisturbed_of_not_meddles {b : Settings.Breaker} {s : Session} (hv : Valid b s)
    {ev : Event} (hm : ¬ s.Meddles ev) : s.Undisturbed ev := by
  intro pair hst
  obtain ⟨g, hg, hpe, hlt⟩ := hst
  cases ev with
  | ask p => cases hg
  | wait ms => cases hg
  | record i success =>
    have hne : (s.circuit pair).state ≠ .halfOpen := fun hh => by
      rw [← state_eq] at hh
      exact hm ⟨pair, ⟨g, hg, hpe, hlt⟩, hh, fun _ => ⟨i, success, rfl⟩⟩
    have hc := circuit_record_self hg (hv.known g (mem_of_pending? hg)) success
    simp only [hpe, record_trial, recordTrial_of_ne_halfOpen hne] at hc
    rw [state_eq, state_eq, hc]
    exact ⟨rfl, fun hh => absurd hh hne⟩
  | drop i =>
    have hc := circuit_drop_self hg (hv.known g (mem_of_pending? hg))
    simp only [hpe, if_true] at hc
    rw [state_eq, state_eq, hc]
    refine ⟨rfl, fun hh => ?_⟩
    have hzero : (s.circuit pair).trialsInFlight = 0 := by
      by_contra hne
      rw [← state_eq] at hh
      exact hm ⟨pair, ⟨g, hg, hpe, hlt⟩, hh, fun h0 => absurd h0 hne⟩
    simp [freeTrial, hzero]

/-- An event that meddles changes the state of the circuit or takes a trial off its count. -/
theorem not_meddles_of_undisturbed {b : Settings.Breaker} {s : Session} (hv : Valid b s)
    {ev : Event} (h : s.Undisturbed ev) : ¬ s.Meddles ev := by
  rintro ⟨pair, hst, hs, hrec⟩
  obtain ⟨hstate, hcount⟩ := h pair hst
  obtain ⟨g, hg, hpe, -⟩ := hst
  have hs' : (s.circuit pair).state = .halfOpen := by rwa [← state_eq]
  cases ev with
  | ask p => cases hg
  | wait ms => cases hg
  | record i success =>
    have hc := circuit_record_self hg (hv.known g (mem_of_pending? hg)) success
    simp only [hpe, record_trial] at hc
    rw [state_eq, hc, recordTrial_halfOpen hs', hs] at hstate
    split at hstate <;> cases hstate
  | drop i =>
    have hc := circuit_drop_self hg (hv.known g (mem_of_pending? hg))
    simp only [hpe, if_true] at hc
    have htrials := hcount hs
    simp only [hc, freeTrial] at htrials
    obtain ⟨j, success, he⟩ := hrec (by omega)
    cases he

theorem isolated_iff (b : Settings.Breaker) (history : List Event) :
    Isolated b history ↔ Along apply (fun s ev => ¬ s.Meddles ev) (start b) history := by
  constructor
  · rintro ⟨-, h⟩
    exact along_of_invariant (valid_start b) (fun _ ev hv _ => valid_apply hv ev)
      (fun _ _ hv hu => not_meddles_of_undisturbed hv hu) h
  · intro h
    have hstep : ∀ s ev, Valid b s ∧ Counted b s → ¬ s.Meddles ev →
        Valid b (s.apply ev) ∧ Counted b (s.apply ev) :=
      fun s ev hi hm => ⟨valid_apply hi.1 ev, counted_apply hi.1 hi.2 hm⟩
    have hinit : Valid b (start b) ∧ Counted b (start b) := ⟨valid_start b, counted_start b⟩
    refine ⟨?_, ?_⟩
    · rintro before after rfl
      exact (foldl_invariant (I := fun s => Valid b s ∧ Counted b s) hinit hstep
        ((along_append _ before after).mp h).1).2
    · exact along_of_invariant (I := fun s => Valid b s ∧ Counted b s) hinit hstep
        (fun _ _ hi hm => undisturbed_of_not_meddles hi.1 hm) h

/-! ### Room for one trial -/

/-- Every trial that is still out belongs to the present episode of a half open circuit. -/
def Current (s : Session) : Prop :=
  ∀ g ∈ s.grants, g.permit.trial = true → g.resolved = false →
    s.state g.permit.pair = .halfOpen ∧ g.episode = s.episode g.permit.pair

theorem not_meddles_of_current {s : Session} (h : Current s) (ev : Event) :
    ¬ s.Meddles ev := by
  rintro ⟨pair, ⟨g, hg, hpe, hlt⟩, -, -⟩
  obtain ⟨i, -, hi⟩ := Option.bind_eq_some_iff.mp hg
  have hep := (h g (mem_of_pending? hi) (by simp [hpe]) (pending?_eq_some hi).2).2
  simp only [hpe] at hep
  omega

theorem mem_of_mem_settle {s : Session} {i : Nat} {g : Grant} (h : g ∈ s.settle i)
    (hr : g.resolved = false) : g ∈ s.grants := by
  obtain ⟨j, hj⟩ := List.mem_iff_getElem?.mp h
  rw [settle, List.getElem?_modify] at hj
  obtain ⟨g', hg', he⟩ := Option.map_eq_some_iff.mp hj
  split at he
  · cases he
    cases hr
  · cases he
    exact List.mem_of_getElem? hg'

theorem current_ask {b : Settings.Breaker} {s : Session} (hv : Valid b s) (h : Current s)
    (pair : String) : Current (s.apply (.ask pair)) := by
  intro g hg ht hr
  by_cases hp : g.permit.pair = pair
  · rw [state_eq, hp]
    rcases ask_cases hv pair with ⟨hc, he, hgs⟩ | ⟨hs, -, hc, he, hgs⟩ | ⟨hs, hc, he, hgs⟩
    · have hold : g ∈ s.grants := by
        rcases hgs with hgs | hgs
        · rwa [hgs] at hg
        · rw [hgs] at hg
          rcases List.mem_append.mp hg with hg | hg
          · exact hg
          · cases List.mem_singleton.mp hg
            cases ht
      rw [hc, he, ← state_eq, ← hp]
      exact h g hold ht hr
    · rw [hc, he]
      rw [hgs] at hg
      rcases List.mem_append.mp hg with hg | hg
      · have := h g hg ht hr
        rw [hp, state_eq] at this
        exact this
      · cases List.mem_singleton.mp hg
        rw [state_eq] at hs
        exact ⟨hs, rfl⟩
    · refine ⟨hc, ?_⟩
      rw [he]
      rcases mem_grants_ask hg with hold | ⟨-, hnew⟩
      · have hhalf := (h g hold ht hr).1
        rw [hp, hs] at hhalf
        cases hhalf
      · rw [hnew, ← he]
        simp [apply, ask]
  · have hold : g ∈ s.grants := by
      rcases mem_grants_ask hg with hg | hg
      · exact hg
      · exact absurd hg.1 hp
    have he : (s.apply (.ask pair)).episode g.permit.pair = s.episode g.permit.pair := by
      simp [apply, ask, Function.update_of_ne hp]
    rw [state_eq, circuit_ask_of_ne s hp, he, ← state_eq]
    exact h g hold ht hr

/-- Recording the only trial ends the episode; any other report leaves it alone. -/
theorem current_record {b : Settings.Breaker} {s : Session} (hv : Valid b s)
    (hcount : Counted b s) (hk : b.halfOpenMax ≤ 1) (h : Current s) (i : Nat)
    (success : Bool) : Current (s.apply (.record i success)) := by
  cases hi : s.pending? i with
  | none => rwa [apply_record_none hi]
  | some used =>
    intro g hg ht hr
    have hset : g ∈ s.settle i := by simpa [apply, hi] using hg
    obtain ⟨hs, hep⟩ := h g (mem_of_mem_settle hset hr) ht hr
    have he : (s.apply (.record i success)).episode = s.episode := by simp [apply, hi]
    rw [state_eq, he]
    refine ⟨?_, hep⟩
    by_cases hp : g.permit.pair = used.permit.pair
    · have hs' : (s.circuit used.permit.pair).state = .halfOpen := by
        rw [← state_eq, ← hp]
        exact hs
      have hc := circuit_record_self hi (hv.known used (mem_of_pending? hi)) success
      rw [hp, hc]
      cases htrial : used.permit.trial with
      | false =>
        rw [record_call, recordCall_of_ne_closed (by simp [hs'])]
        exact hs'
      | true =>
        -- both permits would be probes of the same episode
        exfalso
        have hresolved := (pending?_eq_some hi).2
        have hused := (h used (mem_of_pending? hi) htrial hresolved).2
        have hprobe : s.isProbe g.permit.pair used = true := by
          simp [isProbe, hp, ← htrial, hresolved, hused]
        have hother : s.isProbe g.permit.pair g = true := by
          simp [isProbe, ← ht, hr, hep]
        have hpos := List.countP_pos_iff.mpr ⟨g, hset, hother⟩
        have hsum := probes_settle hi g.permit.pair
        have hmax := (hcount _ hs).2
        rw [if_pos hprobe] at hsum
        omega
    · rw [circuit_record_of_ne hi hp, ← state_eq]
      exact hs

theorem current_drop {b : Settings.Breaker} {s : Session} (hv : Valid b s) (h : Current s)
    (i : Nat) : Current (s.apply (.drop i)) := by
  cases hi : s.pending? i with
  | none => rwa [apply_drop_none hi]
  | some used =>
    intro g hg ht hr
    have hset : g ∈ s.settle i := by simpa [apply, hi] using hg
    obtain ⟨hs, hep⟩ := h g (mem_of_mem_settle hset hr) ht hr
    have he : (s.apply (.drop i)).episode = s.episode := by simp [apply, hi]
    rw [state_eq] at hs ⊢
    rw [he]
    refine ⟨?_, hep⟩
    by_cases hp : g.permit.pair = used.permit.pair
    · rw [hp, circuit_drop_self hi (hv.known used (mem_of_pending? hi)), ← hp]
      split
      · exact hs
      · exact hs
    · rw [circuit_drop_of_ne hi hp]
      exact hs

theorem current_apply {b : Settings.Breaker} {s : Session} (hv : Valid b s)
    (hcount : Counted b s) (hk : b.halfOpenMax ≤ 1) (h : Current s) (ev : Event) :
    Current (s.apply ev) := by
  cases ev with
  | ask pair => exact current_ask hv h pair
  | record i success => exact current_record hv hcount hk h i success
  | drop i => exact current_drop hv h i
  | wait ms => exact h

/-- With room for one trial at a time no permit outlives its episode. -/
theorem isolated_of_one {b : Settings.Breaker} (hk : b.halfOpenMax ≤ 1)
    (history : List Event) : Isolated b history := by
  rw [isolated_iff]
  refine along_of_invariant (I := fun s => Valid b s ∧ Counted b s ∧ Current s)
    ⟨valid_start b, counted_start b, by simp [Current, start]⟩ ?_ ?_
    (along_of_forall (fun _ _ => trivial) (start b) history)
  · rintro s ev ⟨hv, hc, hcur⟩ -
    exact ⟨valid_apply hv ev, counted_apply hv hc (not_meddles_of_current hcur ev),
      current_apply hv hc hk hcur ev⟩
  · rintro s ev ⟨-, -, hcur⟩ -
    exact not_meddles_of_current hcur ev

/-- Half open episodes are isolated from each other exactly when no permit of an earlier episode
meddles, and always when there is room for one trial at a time. -/
theorem episodes_isolated_iff_none_meddles (b : Settings.Breaker) (history : List Event) :
    (Isolated b history ↔ Along apply (fun s ev => ¬ s.Meddles ev) (start b) history) ∧
      (b.halfOpenMax ≤ 1 → Isolated b history) :=
  ⟨isolated_iff b history, fun hk => isolated_of_one hk history⟩

/-- With room for two trials, a permit of the first episode that is dropped in the second lets a
third probe in. -/
theorem stale_drop_admits_third_probe :
    let b : Settings.Breaker :=
      { minRequests := 1, failureRatio := 0.5, cooldownSecs := 1, halfOpenMax := 2 }
    let history : List Event := [.ask "a->b", .record 0 false, .wait 1000, .ask "a->b",
      .ask "a->b", .record 1 false, .wait 1000, .ask "a->b", .ask "a->b", .drop 2, .ask "a->b"]
    ((start b).run history).state "a->b" = .halfOpen ∧
      ((start b).run history).probes "a->b" = 3 ∧ ¬ Isolated b history := by
  intro b history
  have hs : ((start b).run history).state "a->b" = .halfOpen := by decide +kernel
  have hp : ((start b).run history).probes "a->b" = 3 := by decide +kernel
  refine ⟨hs, hp, fun h => ?_⟩
  have hle := (h.1 history [] (List.append_nil history).symm "a->b" hs).2
  rw [hp] at hle
  exact absurd hle (by decide)

end Session

end RuleExchange.Circuits
