import RuleExchange.Proofs.WorldProgress

/-! Sharing does not show. Without a validator and as long as no time limit runs out, every
accepted call is refused by the circuit of its pair or gets what its own request gets when
it is worked on alone, wherever the answer came from. Requests with the same fingerprint
may share answers because the fingerprint holds everything that the work reads. -/

namespace RuleExchange

theorem Request.level_of_check {r : Request} (h : r.check = .ok ()) :
    r.options.level ≤ maxLevel := by
  unfold check at h
  obtain ⟨-, -, h⟩ := ok_of_bind h
  obtain ⟨-, -, h⟩ := ok_of_bind h
  obtain ⟨-, -, h⟩ := ok_of_bind h
  split at h
  · cases h
  · split at h
    · cases h
    · omega

namespace Engine

open History (Along)

/-! ### Sharing a fingerprint -/

/-- The outcome is what every accepted request with this fingerprint gets on its own. -/
def OwnWork (e : Setup) (rs : List Request) (k : Fingerprint) (o : Outcome) : Prop :=
  ∀ r ∈ rs, ∀ rt, Call.route e r = .ok rt → rt.key = k → o = e.work rt r

/-- No two of the requests have one digest and different encodings. -/
def Distinguished (rs : List Request) : Prop :=
  ∀ r ∈ rs, ∀ q ∈ rs, Digest.sha256 (Fingerprint.encode r) = Digest.sha256 (Fingerprint.encode q) →
    Fingerprint.encode r = Fingerprint.encode q

theorem ownWork_of_route {e : Setup} {rs : List Request} (hsized : ∀ r ∈ rs, r.Sized)
    (hdigest : Distinguished rs) {r : Request} (hr : r ∈ rs) {rt : Route}
    (hroute : Call.route e r = .ok rt) : OwnWork e rs rt.key (e.work rt r) := by
  intro q hq qt hqt hkey
  rw [Call.key_of_route hqt, Call.key_of_route hroute] at hkey
  have hencode := hdigest q hq r hr (congrArg Fingerprint.octets hkey)
  have hlevel {x : Request} {xt : Route} (hx : Call.route e x = .ok xt) : x.options.level < 256 :=
    Nat.lt_of_le_of_lt (Request.level_of_check (Call.of_route hx).1) (by decide)
  have halike := Fingerprint.alike_of_encode_eq (hsized q hq) (hsized r hr) (hlevel hqt)
    (hlevel hroute) hencode
  exact (Setup.work_congr halike hqt hroute).symm

/-! ### What a leader concludes -/

open Call in
theorem Call.Transition.concluded_eq_work {e : Setup} {good : Fingerprint → Outcome → Prop}
    {late : Prop} {s s' : State} {r : Request} {p : Phase} {began : Option Nat} {l : Lead}
    {o : Outcome} (ht : Transition e s r p s' (.concluded l o)) (hv : e.validator = none)
    (hx : expires s ⟨r, p, began⟩ = false) (hst : Stands e good late s.flights r p) :
    route e r = .ok l.route ∧ o = e.work l.route r := by
  cases ht with
  | fail hd => exact ⟨hst.route, (Setup.work_of_error hd).symm⟩
  | finish hd => exact ⟨hst.route, (Setup.work_of_ok hd).symm⟩
  | lateExecuting hw hd => simp [expires, hw, hd] at hx
  | skip | latePausing | accept | lateAsking => exact absurd hv hst.2.2

namespace World

open Call

theorem Sound.answers {e : Setup} {good : Fingerprint → Outcome → Prop} {late : Prop} {w : World}
    (h : w.Sound e good late) {i : Nat} {o : Outcome} (ho : w.outcome? i = some o) :
    ∃ c, w.calls[i]? = some c ∧ Answers e good late c.request o := by
  obtain ⟨c, hc, hco⟩ := Option.bind_eq_some_iff.mp ho
  refine ⟨c, hc, ?_⟩
  have hst := h.stands i c hc
  rwa [phase_of_outcome? hco] at hst

section Runs

variable {e : Setup} {rs : List Request}

theorem Sound.apply_ownWork {w : World} (h : w.Sound e (OwnWork e rs) False)
    (hv : e.validator = none) (hsized : ∀ r ∈ rs, r.Sized) (hdigest : Distinguished rs)
    (hrs : w.calls.map (·.request) = rs) {ev : Event} (hx : w.expires ev = false) :
    (w.apply e ev).Sound e (OwnWork e rs) False := by
  cases ev with
  | wait ms => exact h.wait ms
  | move i =>
    refine h.move i (by simp [hx]) fun c s' l o hc hs => ?_
    obtain ⟨p, hp, ht⟩ := step_transition hs
    cases congrArg Call.phase hp
    have hexpires : c.expires w.state = false := by simpa [expires, hc] using hx
    obtain ⟨hroute, rfl⟩ := ht.concluded_eq_work hv hexpires (h.stands i c hc)
    have hmem : c.request ∈ rs := hrs ▸ List.mem_map_of_mem (List.mem_of_getElem? hc)
    exact ownWork_of_route hsized hdigest hmem hroute

end Runs

end World

end Engine

end RuleExchange
