import Mathlib.Algebra.GroupWithZero.Nat
import Mathlib.Tactic.SplitIfs
import RuleExchange.Quality.Analyzer

/-! Complexity and impact. The percentage of a body is a weighted count of its conditions and
stages, cut at one hundred, and words of 32 bits compute the same as long as the sums of the
weights fit into them. Of the hundred and one quotients that can come out, each falls into
the class that its percentage says, so rounding moves no body over a boundary; the counts
only grow with the body, and so does its class. -/

namespace RuleExchange

/-- The order of the classes of impact. -/
def Impact.severity : Impact → Nat
  | low => 0
  | medium => 1
  | high => 2
  | unknown => 3

/-- The class of a whole percentage. -/
def Impact.ofPercent (t : Nat) : Impact := if t < 30 then low else if t ≤ 70 then medium else high

theorem Impact.severity_ofPercent_le {s t : Nat} (h : s ≤ t) :
    (ofPercent s).severity ≤ (ofPercent t).severity := by
  unfold ofPercent
  repeat' split
  all_goals first | omega | decide

namespace Analyzer

/-! ### Counting -/

def isRegex (c : Condition) : Bool := c.operator = .regex

/-- Conditions that have to look through the whole value. -/
def isScan (c : Condition) : Bool :=
  c.operator = .contains || c.operator = .endsWith || c.hasInnerWildcard

/-- The percentage of a body by what it has of each kind. -/
def costPercent (b : RuleBody) : Nat :=
  min 100 (20 * b.conditions.countP isRegex + 10 * b.conditions.countP isScan +
    30 * b.stages.countP Stage.isCorrelation + 10 * b.stages.countP (fun s => !s.isCorrelation) +
    5 * (b.conditions.length - 8))

theorem hasInnerWildcard_operator {c : Condition} (h : c.hasInnerWildcard = true) :
    c.operator = .equals ∨ c.operator = .notEquals := by
  simp only [Condition.hasInnerWildcard, Bool.and_eq_true, Bool.or_eq_true,
    decide_eq_true_eq] at h
  exact h.1.1

theorem conditionWeight_eq (c : Condition) : conditionWeight c =
    (if isRegex c then 20 else 0) + (if isScan c then 10 else 0) := by
  cases hw : c.hasInnerWildcard <;> cases ho : c.operator <;>
    simp [conditionWeight, isRegex, isScan, hw, ho]
  case true.regex => simpa [ho] using hasInnerWildcard_operator hw

theorem stageWeight_eq (s : Stage) : stageWeight s =
    (if s.isCorrelation then 30 else 0) + (if !s.isCorrelation then 10 else 0) := by
  cases hs : s.isCorrelation <;> simp [stageWeight, hs]

/-- A sum of two kinds of weights by counting each kind. -/
theorem sum_map_eq_countP {α : Type} {w : α → Nat} {m n : Nat} {p q : α → Bool}
    (hw : ∀ x, w x = (if p x then m else 0) + (if q x then n else 0)) (xs : List α) :
    (xs.map w).sum = m * xs.countP p + n * xs.countP q := by
  induction xs with
  | nil => rfl
  | cons x xs ih =>
    rw [List.map_cons, List.sum_cons, ih, hw, List.countP_cons, List.countP_cons]
    simp only [Nat.mul_add]
    split <;> split <;> omega

theorem complexityPercent_eq_costPercent (b : RuleBody) : complexityPercent b = costPercent b := by
  have hconditions := sum_map_eq_countP conditionWeight_eq b.conditions
  have hstages := sum_map_eq_countP stageWeight_eq b.stages
  rw [List.sum_eq_foldr] at hconditions hstages
  rw [complexityPercent, hconditions, hstages, costPercent, freeConditions, Nat.add_assoc _ (30 * _)]

theorem costPercent_mono {b b' : RuleBody} (hc : b.conditions.Sublist b'.conditions)
    (hs : b.stages.Sublist b'.stages) : costPercent b ≤ costPercent b' := by
  have hregex := hc.countP_le (p := isRegex)
  have hscan := hc.countP_le (p := isScan)
  have hcorrelation := hs.countP_le (p := Stage.isCorrelation)
  have hother := hs.countP_le (p := fun s => !s.isCorrelation)
  have hlength := hc.length_le
  unfold costPercent
  omega

/-! ### Words of 32 bits -/

/-- A number as a word, or the greatest word if it is too large. -/
def saturate (n : Nat) : UInt32 := UInt32.ofNat (min n (UInt32.size - 1))

/-- The sum of weights in words, which starts again at zero when it gets too large. -/
def wordSum (ws : List Nat) : UInt32 := (ws.map UInt32.ofNat).foldr (· + ·) 0

/-- The percentage computed in words: sums that must not get too large, and saturating arithmetic on
them. -/
def wordPercent (b : RuleBody) : UInt32 :=
  let conditions := wordSum (b.conditions.map conditionWeight)
  let stages := wordSum (b.stages.map stageWeight)
  let extra := saturate ((saturate (b.conditions.length - freeConditions)).toNat * 5)
  min (saturate ((saturate (conditions.toNat + stages.toNat)).toNat + extra.toNat)) 100

/-- The sums of the weights are words. -/
def Fits (b : RuleBody) : Prop :=
  (b.conditions.map conditionWeight).sum < UInt32.size ∧
    (b.stages.map stageWeight).sum < UInt32.size

theorem toNat_saturate (n : Nat) : (saturate n).toNat = min n (UInt32.size - 1) := by
  rw [saturate, UInt32.toNat_ofNat', UInt32.size]
  omega

theorem toNat_wordSum {ws : List Nat} (h : ws.sum < UInt32.size) : (wordSum ws).toNat = ws.sum := by
  induction ws with
  | nil => rfl
  | cons w ws ih =>
    rw [List.sum_cons] at h
    have hrest : (wordSum ws).toNat = ws.sum := ih (by omega)
    have hword : w + ws.sum < 2 ^ 32 := h
    have hstep : wordSum (w :: ws) = UInt32.ofNat w + wordSum ws := rfl
    rw [hstep, UInt32.toNat_add, hrest, UInt32.toNat_ofNat', List.sum_cons]
    omega

theorem toNat_wordPercent {b : RuleBody} (h : Fits b) :
    (wordPercent b).toNat = complexityPercent b := by
  have hconditions := toNat_wordSum h.1
  have hstages := toNat_wordSum h.2
  have hmin (x : UInt32) : (min x 100).toNat = min x.toNat 100 := by
    rw [Nat.min_def]
    exact apply_ite UInt32.toNat _ _ _
  rw [complexityPercent, ← List.sum_eq_foldr, ← List.sum_eq_foldr]
  simp only [wordPercent, hmin, toNat_saturate, hconditions, hstages, UInt32.size]
  omega

/-! ### Classes -/

/-- The boundaries lie where the percentages say: no quotient is rounded over one. -/
theorem quotient_classes : ∀ t ≤ 100, (Float.ofNat t / 100.0 < 0.3 ↔ t < 30) ∧
    (Float.ofNat t / 100.0 ≤ 0.7 ↔ t ≤ 70) ∧ (0.7 < Float.ofNat t / 100.0 ↔ 70 < t) := by
  decide +kernel

variable (b : RuleBody)

theorem complexity_eq : complexity b = Float.ofNat (costPercent b) / 100.0 := by
  rw [complexity, complexityPercent_eq_costPercent]

theorem impact_complexity : impact {} (complexity b) = .ofPercent (costPercent b) := by
  obtain ⟨hlow, hmedium, -⟩ := quotient_classes (costPercent b) (Nat.min_le_left ..)
  rw [complexity_eq, impact, Impact.ofPercent]
  simp only [hlow, hmedium]

/-- Three expressions and a scan are exactly at the upper boundary. -/
example : impact {} (complexity { conditions := [⟨"payload", .regex, "ab+c"⟩,
    ⟨"payload", .regex, "cmd"⟩, ⟨"payload", .regex, "-enc"⟩, ⟨"payload", .equals, "a*b"⟩] }) =
      .medium := by decide +kernel

theorem impact_eq_iff : (impact {} (complexity b) = .low ↔ costPercent b < 30) ∧
    (impact {} (complexity b) = .medium ↔ 30 ≤ costPercent b ∧ costPercent b ≤ 70) ∧
    (impact {} (complexity b) = .high ↔ 70 < costPercent b) := by
  rw [impact_complexity, Impact.ofPercent]
  split_ifs <;> simp <;> omega

def isHighComplexity (w : Warning) : Bool := w.code = "HIGH_COMPLEXITY"

theorem countP_complexityWarning : (complexityWarning {} (complexity b)).countP isHighComplexity =
    if impact {} (complexity b) = .high then 1 else 0 := by
  obtain ⟨-, -, hhigh⟩ := quotient_classes (costPercent b) (Nat.min_le_left ..)
  have habove : ({} : Analyzer).complexityThreshold < complexity b ↔
      impact {} (complexity b) = .high := by
    rw [(impact_eq_iff b).2.2, complexity_eq]
    exact hhigh
  simp only [complexityWarning, habove]
  split <;> rfl

theorem countP_specificityWarning (a : Analyzer) (specificity : Float) :
    (a.specificityWarning specificity).countP isHighComplexity = 0 := by
  unfold specificityWarning
  split <;> rfl

/-- The impact of a body is decided by its percentage, which words of 32 bits compute as long as
they hold the sums of the weights. The warning comes once with high impact and else not at all, and
a body with more conditions or stages, wherever they were added, is in no lower class. -/
theorem complexity_decides_impact (conf : Conformance) :
    let t := costPercent b
    let m := assess {} b conf
    (complexity b = Float.ofNat t / 100.0 ∧ (Fits b → (wordPercent b).toNat = t)) ∧
      ((m.impact = .low ↔ t < 30) ∧ (m.impact = .medium ↔ 30 ≤ t ∧ t ≤ 70) ∧
        (m.impact = .high ↔ 70 < t)) ∧
      m.warnings.countP isHighComplexity =
        conf.warnings.countP isHighComplexity + (if m.impact = .high then 1 else 0) ∧
      ∀ b' conf', b.conditions.Sublist b'.conditions → b.stages.Sublist b'.stages →
        m.impact.severity ≤ (assess {} b' conf').impact.severity := by
  intro t m
  have hwarnings : m.warnings = conf.warnings ++ specificityWarning {} (specificity b) ++
      complexityWarning {} (complexity b) := rfl
  refine ⟨⟨complexity_eq b, fun h => ?words⟩, impact_eq_iff b, ?warning, fun b' conf' hc hs => ?mono⟩
  case words => exact (toNat_wordPercent h).trans (complexityPercent_eq_costPercent b)
  case warning =>
    rw [hwarnings, List.countP_append, List.countP_append, countP_specificityWarning,
      countP_complexityWarning]
    rfl
  case mono =>
    have himpact (b : RuleBody) (conf : Conformance) :
        (assess {} b conf).impact = .ofPercent (costPercent b) := impact_complexity b
    rw [himpact b', show m.impact = _ from himpact b conf]
    exact Impact.severity_ofPercent_le (costPercent_mono hc hs)

end Analyzer

end RuleExchange
