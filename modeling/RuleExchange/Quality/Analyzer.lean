import RuleExchange.Quality.Metrics
import RuleExchange.Rule.Body

/-! Quality of rule bodies. Accuracy starts at one and loses a fixed part for each
fault of conformance; specificity is the mean over the conditions and drives the
rate of false positives; complexity is a sum of whole percentages, cut at one
hundred, and is sorted into classes of impact. -/

namespace RuleExchange

/-- What the checks of a rule's form have found so far. -/
structure Conformance where
  accuracy : Float := 1.0
  warnings : List Warning := []

namespace Conformance

def structuralPenalty : Float := 0.25

def rulePenalty : Float := 0.1

def penalize (c : Conformance) (penalty : Float) (w : Warning) : Conformance :=
  let left := c.accuracy - penalty
  { accuracy := if left < 0.0 then 0.0 else left, warnings := c.warnings ++ [w] }

def missingField (c : Conformance) (field : String) : Conformance :=
  c.penalize structuralPenalty
    (.major "MISSING_REQUIRED_FIELD" ("required field '" ++ field ++ "' is missing"))

def formViolation (c : Conformance) (pattern : String) : Conformance :=
  c.penalize structuralPenalty
    (.major "INVALID_SYNTAX" ("content does not match structural pattern '" ++ pattern ++ "'"))

def ruleViolation (c : Conformance) (rule : String) : Conformance :=
  c.penalize rulePenalty
    (.major "CONFIG_RULE_VIOLATION"
      ("content violates configured validation rule '" ++ rule ++ "'"))

def note (c : Conformance) (w : Warning) : Conformance :=
  { c with warnings := c.warnings ++ [w] }

end Conformance

structure Analyzer where
  /-- Below this specificity a rule is reported as too general. -/
  specificityFloor : Float := 0.5
  /-- Above this complexity a rule is reported as too costly. -/
  complexityThreshold : Float := 0.7

namespace Analyzer

def conditionSpecificity (c : Condition) : Float :=
  if c.isMatchAll then 0.0
  else if c.operator = .notEquals then 0.3
  else if c.hasInnerWildcard then 0.4
  else if c.value.length < 3 then 0.5
  else if c.operator = .regex then 0.7
  else 1.0

def specificity (b : RuleBody) : Float :=
  if b.conditions.isEmpty then 0.0
  else
    let total := b.conditions.foldl (fun s c => s + conditionSpecificity c) 0.0
    total / Float.ofNat b.conditions.length

def conditionWeight (c : Condition) : Nat :=
  match c.operator with
  | .regex => 20
  | .contains | .endsWith => 10
  | _ => if c.hasInnerWildcard then 10 else 0

def stageWeight (s : Stage) : Nat := if s.isCorrelation then 30 else 10

/-- The number of conditions that cost nothing by their number. -/
def freeConditions : Nat := 8

/-- Complexity in percent. -/
def complexityPercent (b : RuleBody) : Nat :=
  min 100 ((b.conditions.map conditionWeight).foldr (· + ·) 0 +
    (b.stages.map stageWeight).foldr (· + ·) 0 +
    5 * (b.conditions.length - freeConditions))

def complexity (b : RuleBody) : Float := Float.ofNat (complexityPercent b) / 100.0

def impact (a : Analyzer) (complexity : Float) : Impact :=
  if complexity < 0.3 then .low
  else if complexity ≤ a.complexityThreshold then .medium
  else .high

def specificityWarning (a : Analyzer) (specificity : Float) : List Warning :=
  if specificity < a.specificityFloor then
    [.major "LOW_SPECIFICITY" ("rule specificity " ++ Decimal.fixed 2 specificity ++
      " is below " ++ Decimal.fixed 2 a.specificityFloor ++ "; expect false positives")]
  else []

def complexityWarning (a : Analyzer) (complexity : Float) : List Warning :=
  if a.complexityThreshold < complexity then
    [.major "HIGH_COMPLEXITY" ("rule complexity " ++ Decimal.fixed 2 complexity ++ " exceeds " ++
      Decimal.fixed 2 a.complexityThreshold)]
  else []

/-- Metrics of a body whose form has been checked. -/
def assess (a : Analyzer) (b : RuleBody) (c : Conformance) : Metrics :=
  let s := specificity b
  let k := complexity b
  Metrics.ofScores c.accuracy (0.01 + 0.6 * (1.0 - s)) (a.impact k)
    (c.warnings ++ a.specificityWarning s ++ a.complexityWarning k)

end Analyzer

end RuleExchange
