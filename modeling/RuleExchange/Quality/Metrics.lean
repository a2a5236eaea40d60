import RuleExchange.Instant
import RuleExchange.Quality.Warning

/-! Quality metrics of a rule: accuracy, estimated rate of false positives, impact
on performance, and the confidence composed of them with fixed weights. -/

namespace RuleExchange

inductive Impact where
  | low
  | medium
  | high
  | unknown
  deriving DecidableEq, Repr

namespace Impact

def name : Impact → String
  | low => "low"
  | medium => "medium"
  | high => "high"
  | unknown => "unknown"

def score : Impact → Float
  | low => 1.0
  | medium => 0.7
  | high => 0.4
  | unknown => 0.0

/-- Every other word is `unknown`. -/
def ofName (s : String) : Impact :=
  if s = "low" then low else if s = "medium" then medium else if s = "high" then high else unknown

def decoder : Json.Decoder Impact := fun o v => do
  let s ← Json.Decode.choice ["low", "medium", "high", "unknown"] (some "unknown") o v
  return ofName s

end Impact

/-- The weights are 0.6 for accuracy, 0.3 for the absence of false positives, 0.1 for speed. -/
def confidence (accuracy falsePositives : Float) (impact : Impact) : Float :=
  0.6 * accuracy + 0.3 * (1.0 - falsePositives) + 0.1 * impact.score

/-- Into the unit interval; not-a-number becomes zero. -/
def clampUnit (x : Float) : Float :=
  if x.isNaN then 0.0 else if x < 0.0 then 0.0 else if 1.0 < x then 1.0 else x

structure Metrics where
  accuracy : Float
  falsePositives : Float
  impact : Impact
  confidence : Float
  warnings : List Warning

namespace Metrics

def ofScores (accuracy falsePositives : Float) (impact : Impact) (warnings : List Warning) :
    Metrics :=
  let a := clampUnit accuracy
  let f := clampUnit falsePositives
  { accuracy := a
    falsePositives := f
    impact
    confidence := clampUnit (RuleExchange.confidence a f impact)
    warnings }

def maxLevel (m : Metrics) : Option Level := Warning.maxLevel m.warnings

def hasMajor (m : Metrics) : Bool := m.maxLevel = some .major

def toJson (m : Metrics) : Json.Value :=
  .obj [("accuracy_score", .float m.accuracy), ("false_positive_rate", .float m.falsePositives),
    ("performance_impact", .str m.impact.name), ("confidence_score", .float m.confidence),
    ("validation_warnings", .arr (m.warnings.map Warning.toJson))]

/-- The members of written metrics; the time of the last validation stands after the warnings. -/
def shape : Json.Decode.Shape :=
  { name := "QualityMetrics"
    fields := [("accuracy_score", .required), ("false_positive_rate", .required),
      ("performance_impact", .required), ("confidence_score", .required),
      ("validation_warnings", .required), ("last_validated", .required)] }

/-- A point in time has to be one, and is then let go. -/
def instant : Json.Decoder Unit := fun o v => do
  let s ← Json.Decode.string o v
  if Instant.isWritten s.toList then .ok () else .error (.unfit "not a point in time")

def decoder : Json.Decoder Metrics := fun o v => open Json.Decode in do
  let check (key : String) (x : Json.Source) : Except Json.Misfit Unit :=
    if key = "performance_impact" then ignore (Impact.decoder o x)
    else if key = "validation_warnings" then ignore (list Warning.decoder o x)
    else if key = "last_validated" then instant o x
    else ignore (float o x)
  let found ← record shape check o v
  return {
    accuracy := ← field float o found "accuracy_score" 0.0
    falsePositives := ← field float o found "false_positive_rate" 0.0
    impact := ← field Impact.decoder o found "performance_impact" .unknown
    confidence := ← field float o found "confidence_score" 0.0
    warnings := ← field (list Warning.decoder) o found "validation_warnings" [] }

end Metrics

end RuleExchange
