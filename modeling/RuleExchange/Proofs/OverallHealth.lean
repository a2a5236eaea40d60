import Mathlib.Data.List.Induction
import RuleExchange.Health

/-! The health of the whole. The components are taken into account one after another, and at
each point what was seen so far is as ill as the worst of it, with the reasons of the components
that are as ill as that and of no others. The class of the whole is therefore a matter of which
kinds of components there are, not of their order; the order shows in the reasons alone. -/

namespace RuleExchange

namespace Health

def isDegraded : Health → Bool
  | degraded _ => true
  | _ => false

def reason : Health → String
  | healthy => ""
  | degraded r => r
  | unhealthy r => r

end Health

namespace Component

/-- What the components of a kind have to say, each with its name, in their order. -/
def reasons (kind : Health → Bool) (cs : List Component) : List String :=
  (cs.filter fun c => kind c.health).map fun c => c.name ++ ": " ++ c.health.reason

/-- How ill the whole is for the reasons of its unhealthy and of its degraded components. -/
def Worst.ofReasons : List String → List String → Worst
  | [], [] => .fine
  | [], d :: ds => .degraded (d :: ds)
  | u :: us, _ => .unhealthy (u :: us)

theorem reasons_concat (kind : Health → Bool) (cs : List Component) (c : Component) :
    reasons kind (cs ++ [c]) = reasons kind cs ++ reasons kind [c] := by
  simp [reasons]

theorem reasons_eq_nil_iff {kind : Health → Bool} {cs : List Component} :
    reasons kind cs = [] ↔ cs.any (fun c => kind c.health) = false := by
  simp [reasons]

/-- One more component is taken into account by its reason, as far as that counts. -/
theorem see_ofReasons (us ds : List String) (c : Component) :
    (Worst.ofReasons us ds).see c =
      .ofReasons (us ++ reasons Health.isUnhealthy [c]) (ds ++ reasons Health.isDegraded [c]) := by
  obtain ⟨name, health⟩ := c
  cases health with
  | healthy => simp [Worst.see, reasons, Health.isUnhealthy, Health.isDegraded]
  | degraded r =>
    have hnone : reasons Health.isUnhealthy [⟨name, .degraded r⟩] = [] := rfl
    rw [hnone, List.append_nil]
    cases us <;> cases ds <;> rfl
  | unhealthy r => cases us <;> cases ds <;> rfl

/-- After any number of components the reasons of those that count are at hand. -/
theorem foldl_see (cs : List Component) : cs.foldl Worst.see .fine =
    .ofReasons (reasons Health.isUnhealthy cs) (reasons Health.isDegraded cs) := by
  induction cs using List.reverseRecOn with
  | nil => rfl
  | append_singleton cs c ih =>
    rw [List.foldl_append, List.foldl_cons, List.foldl_nil, ih, see_ofReasons, reasons_concat,
      reasons_concat]

theorem health_ofReasons (us ds : List String) : (Worst.ofReasons us ds).health =
    if us ≠ [] then .unhealthy (Text.joined "; " us)
    else if ds ≠ [] then .degraded (Text.joined "; " ds)
    else .healthy := by
  cases us <;> cases ds <;> rfl

/-- The class of the whole tells which kinds of components there are. -/
theorem status_aggregate (cs : List Component) : (aggregate cs).status =
    if cs.any (·.health.isUnhealthy) then "unhealthy"
    else if cs.any (·.health.isDegraded) then "degraded"
    else "healthy" := by
  rw [aggregate, foldl_see, health_ofReasons]
  simp only [ne_eq, reasons_eq_nil_iff, Bool.not_eq_false, apply_ite Health.status]
  rfl

/-- The whole is unhealthy if a component is, for the reasons of exactly the unhealthy ones in their
order, else degraded if one is, for the reasons of the degraded ones, and else healthy. Its class is
the same in whatever order the components come. -/
theorem aggregate_is_worst (cs : List Component) :
    aggregate cs =
      (if cs.any (·.health.isUnhealthy) then
        .unhealthy (Text.joined "; " (reasons Health.isUnhealthy cs))
      else if cs.any (·.health.isDegraded) then
        .degraded (Text.joined "; " (reasons Health.isDegraded cs))
      else .healthy) ∧
    ∀ ds, cs.Perm ds → (aggregate cs).status = (aggregate ds).status := by
  refine ⟨?exact, fun ds hperm => ?order⟩
  case exact =>
    rw [aggregate, foldl_see, health_ofReasons]
    simp only [ne_eq, reasons_eq_nil_iff, Bool.not_eq_false]
  case order => rw [status_aggregate, status_aggregate, hperm.any_eq, hperm.any_eq]

/-- Components of all kinds, the degraded ones around an unhealthy one. -/
def mixedComponents : List Component :=
  [⟨"engine", .degraded "slow"⟩, ⟨"disk", .unhealthy "full"⟩, ⟨"clock", .healthy⟩,
    ⟨"cache", .degraded "cold"⟩, ⟨"network", .unhealthy "down"⟩]

theorem mixed_components_are_unhealthy :
    aggregate mixedComponents = .unhealthy "disk: full; network: down" ∧
    mixedComponents.Perm mixedComponents.reverse ∧
    (aggregate mixedComponents).status = (aggregate mixedComponents.reverse).status := by
  obtain ⟨hexact, horder⟩ := aggregate_is_worst mixedComponents
  have hperm : mixedComponents.Perm mixedComponents.reverse := (List.reverse_perm _).symm
  exact ⟨hexact.trans (by decide), hperm, horder _ hperm⟩

end Component

end RuleExchange
