import RuleExchange.Cli.Invocation
import RuleExchange.Cli.Problem
import RuleExchange.Engine.Listing

/-!
Reports of the command line. Each report has a text for people and a JSON value for
programs. Times enter as texts given from outside.
-/

namespace RuleExchange.Cli

structure Report where
  /-- The lines for people. -/
  text : String
  json : Json.Value

namespace Report

def render (r : Report) : Format → String
  | .text => r.text
  | .json => r.json.prettyString ++ "\n"

end Report

def unlines (lines : List String) : String := String.join (lines.map (· ++ "\n"))

/-- A level in a column of five characters. -/
def levelLabel : Level → String
  | .info => "INFO "
  | .minor => "MINOR"
  | .major => "MAJOR"

def warningLine (w : Warning) : String :=
  "    " ++ levelLabel w.level ++ " " ++ w.code ++ " " ++ w.message

def metricsLine (m : Metrics) : String :=
  "  Accuracy: " ++ Decimal.fixed 3 m.accuracy ++ "  False positives: " ++
    Decimal.fixed 3 m.falsePositives ++ "  Performance impact: " ++ m.impact.name

/-- Metrics with the time at which they were taken. -/
def stampedMetrics (now : String) (m : Metrics) : Json.Value :=
  match m.toJson with
  | .obj members => .obj (members ++ [("last_validated", .str now)])
  | v => v

/-- A member that is there only when it has a value. -/
def optionalMember {α : Type} (name : String) (f : α → Json.Value) (x : Option α) :
    List (String × Json.Value) :=
  (x.map fun a => (name, f a)).toList

/-! ### Exchanges -/

structure ExchangeReport where
  source : String
  target : String
  /-- Whether the confidence reaches the floor. -/
  accepted : Bool
  floor : Float
  result : Exchange

def ExchangeReport.report (now : String) (r : ExchangeReport) : Report :=
  let x := r.result
  let warnings :=
    if x.warnings.isEmpty then [] else "  Warnings:" :: x.warnings.map warningLine
  { text := unlines
      (["Translation " ++ r.source ++ " -> " ++ r.target ++ ": " ++
          (if r.accepted then "ACCEPTED" else "BELOW FLOOR"),
        "  Confidence: " ++ Decimal.fixed 3 x.confidence ++ " (floor " ++
          Decimal.fixed 3 r.floor ++ ")",
        metricsLine x.metrics] ++ warnings ++ ["", x.content])
    json := .obj [("source_platform", .str r.source), ("target_platform", .str r.target),
      ("accepted", .bool r.accepted), ("accuracy_floor", .float r.floor),
      ("confidence_score", .float x.confidence), ("translated_content", .str x.content),
      ("quality_metrics", stampedMetrics now x.metrics),
      ("warnings", .arr (x.warnings.map Warning.toJson)), ("translated_at", .str now)] }

/-! ### Validation -/

def validationReport (now : String) (v : ValidationReport) : Report :=
  let details := match v.metrics with
    | some m => metricsLine m :: m.warnings.map warningLine
    | none => []
  { text := unlines
      (["Validation: " ++ v.platform,
        "  Result: " ++ levelLabel v.summary.level ++ " " ++ v.summary.code ++ " " ++
          v.summary.message] ++ details)
    json := .obj ([("platform", .str v.platform), ("code", .str v.summary.code),
      ("message", .str v.summary.message), ("level", .str v.summary.level.name)] ++
      optionalMember "metrics" (stampedMetrics now) v.metrics) }

/-! ### Batches -/

/-- One item of a batch with the target of its request. -/
structure BatchLine where
  id : String
  target : String
  outcome : Outcome

/-- The lines of a batch in the order of the requests. -/
structure BatchReport where
  lines : List BatchLine
  successCount : Nat
  failureCount : Nat

namespace BatchLine

def text (l : BatchLine) : String :=
  let row (status : String) : String :=
    Text.padRight 40 l.id ++ " " ++ Text.padRight 20 l.target ++ " " ++
      Text.padRight 10 status ++ " "
  match l.outcome with
  | .ok x => row "OK" ++ "confidence " ++ Decimal.fixed 3 x.confidence
  | .error f => row "FAILED" ++ f.kind ++ ": " ++ f.message

def toJson (l : BatchLine) : Json.Value :=
  .obj ([("request_id", .str l.id), ("target_platform", .str l.target)] ++
    match l.outcome with
    | .ok x => [("confidence_score", .float x.confidence), ("translated_content", .str x.content)]
    | .error f => [("error", .obj [("code", .str f.kind), ("message", .str f.message)])])

end BatchLine

namespace BatchReport

/-- Each item stands beside the target of its own request. -/
def ofResult (b : BatchResult) (targets : List String) : BatchReport :=
  { lines := (b.items.zip targets).map fun (i, t) => ⟨i.id, t, i.outcome⟩
    successCount := b.successCount
    failureCount := b.failureCount }

def rule (width : Nat) : String := String.ofList (List.replicate width '-')

def report (b : BatchReport) : Report :=
  { text := unlines
      (["Batch: " ++ toString b.successCount ++ " succeeded, " ++ toString b.failureCount ++
          " failed",
        Text.padRight 40 "Request" ++ " " ++ Text.padRight 20 "Target" ++ " " ++
          Text.padRight 10 "Status" ++ " Detail",
        rule 84] ++ b.lines.map BatchLine.text)
    json := .obj [("items", .arr (b.lines.map BatchLine.toJson)),
      ("success_count", .nat b.successCount), ("failure_count", .nat b.failureCount)] }

end BatchReport

/-! ### Platforms -/

def platformRow (id family window deployed : String) : String :=
  Text.padRight 20 id ++ " " ++ Text.padRight 8 family ++ " " ++ Text.padRight 24 window ++ " " ++
    deployed

def platformsReport (ps : List PlatformInfo) : Report :=
  { text := unlines
      ([platformRow "Platform" "Family" "Supported" "Configured", BatchReport.rule 64] ++
        ps.map fun p => platformRow p.id p.family.name (p.minVersion ++ " - " ++ p.maxVersion)
          (p.deployed.getD "-"))
    json := .obj [("platforms", .arr (ps.map PlatformInfo.toJson))] }

/-! ### Settings -/

/-- Where settings come from. -/
def sourceLabel (path : Option String) : String := path.getD "(defaults)"

def checkReport (path : Option String) (fault : Option String) : Report :=
  let result := match fault with
    | none => ["  Result: VALID"]
    | some e => ["  Result: INVALID", "  Error: " ++ e]
  { text := unlines (("Config Validation: " ++ sourceLabel path) :: result)
    json := .obj [("source", .str (sourceLabel path)), ("valid", .bool fault.isNone),
      ("errors", .strings fault.toList)] }

/-- The header lines are comments of the format that follows them. -/
def settingsReport (path part : Option String) (toml : String) : Report :=
  let header := match part with
    | some p => "# [" ++ p ++ "] from " ++ sourceLabel path
    | none => "# effective configuration from " ++ sourceLabel path
  { text := unlines [header, ""] ++ toml
    json := .obj (("source", .str (sourceLabel path)) :: optionalMember "section" .str part) }

end RuleExchange.Cli
