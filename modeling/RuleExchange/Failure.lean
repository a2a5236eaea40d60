import RuleExchange.Quality.Metrics

/-! Results of an exchange and the ways in which one can fail. A failure has a stable
kind and one message; only an open circuit and a missed deadline are worth another
try. -/

namespace RuleExchange

/-- A rule in the language of its target, with its quality. -/
structure Exchange where
  content : String
  metrics : Metrics
  warnings : List Warning
  confidence : Float

def Exchange.toJson (r : Exchange) : Json.Value :=
  .obj [("content", .str r.content), ("quality_metrics", r.metrics.toJson),
    ("warnings", .arr (r.warnings.map Warning.toJson)),
    ("confidence_score", .float r.confidence)]

inductive Failure where
  | invalidInput (field reason : String)
  | unsupportedPlatform (platform : String)
  | parse (platform reason : String)
  | conversion (platform reason : String)
  | validation (platform reason : String)
  /-- The result is there and its confidence is below the floor. -/
  | belowFloor (platform : String) (accuracy floor : Float) (result : Exchange)
  | circuitOpen (pair : String) (retryAfterMs : Nat)
  | timeout (elapsedMs : Nat)
  | internal (reason : String)

namespace Failure

def kind : Failure → String
  | invalidInput _ _ => "invalid_input"
  | unsupportedPlatform _ => "unsupported_platform"
  | parse _ _ => "parse"
  | conversion _ _ => "conversion"
  | validation _ _ => "validation"
  | belowFloor _ _ _ _ => "accuracy_threshold"
  | circuitOpen _ _ => "circuit_open"
  | timeout _ => "timeout"
  | internal _ => "internal"

def message : Failure → String
  | invalidInput field reason => "invalid input '" ++ field ++ "': " ++ reason
  | unsupportedPlatform platform => "unsupported platform: " ++ platform
  | parse platform reason => "failed to parse " ++ platform ++ " content: " ++ reason
  | conversion platform reason => "failed to render " ++ platform ++ " content: " ++ reason
  | validation platform reason => "validation failed for " ++ platform ++ ": " ++ reason
  | belowFloor platform accuracy floor _ =>
    "accuracy " ++ Decimal.fixed 3 accuracy ++ " for " ++ platform ++ " is below floor " ++
      Decimal.fixed 3 floor
  | circuitOpen pair ms =>
    "circuit open for " ++ pair ++ ", retry after " ++ toString ms ++ "ms"
  | timeout ms => "translation timed out after " ++ toString ms ++ "ms"
  | internal reason => "internal error: " ++ reason

def isRetryable : Failure → Bool
  | circuitOpen _ _ | timeout _ => true
  | _ => false

def partialResult : Failure → Option Exchange
  | belowFloor _ _ _ r => some r
  | _ => none

end Failure

/-- What a call for an exchange answers. -/
abbrev Outcome := Except Failure Exchange

end RuleExchange
