import RuleExchange.Cli.Report

/-!
Running a command line: the answer to an invocation as a function of what the program
finds around it. A rule is read before the settings, the settings before the engine is
built, and the first thing that goes wrong ends the run. A result below the floor, a
rule that is not valid and a batch with failures are still reported, and then counted
as problems.
-/

namespace RuleExchange.Cli

/-- What a run finds around it. -/
structure Surroundings where
  /-- Reads a file. -/
  read : String → Except Storage.Fault String
  stdin : Except Storage.Fault String
  environment : Settings.Environment
  /-- The time that is written into reports. -/
  now : String
  /-- Makes up the name of an unnamed item by its place in a batch. -/
  fresh : Nat → String

structure Answer where
  stdout : String := ""
  problem : Option Problem := none

namespace Answer

def exitCode (a : Answer) : Nat := (a.problem.map Problem.exitCode).getD 0

def stderr (a : Answer) : Option String := a.problem.map Problem.message

def ofExcept : Except Problem Answer → Answer
  | .ok a => a
  | .error p => { problem := some p }

end Answer

namespace Surroundings

/-- A dash stands for the standard input. -/
def input (w : Surroundings) (path : String) : Except Problem String :=
  if path = "-" then w.stdin.mapError (.unreadable "<stdin>")
  else (w.read path).mapError (.unreadable path)

/-- The settings in force: a file or the defaults, under the environment. -/
def settings (w : Surroundings) (path : Option String) : Except Problem Settings :=
  match path with
  | some p => do
    let text ← (w.read p).mapError fun f =>
      match f with
      | .absent => .ofLoadError (.notFound p)
      | f => .ofLoadError (.unreadable f.message)
    (Settings.load text w.environment).mapError .ofLoadError
  | none => do
    let s := ({} : Settings).withEnvironment w.environment
    s.validate.mapError fun f => .ofLoadError (.invalid f)
    return s

def engine (w : Surroundings) (path : Option String) : Except Problem Engine := do
  let s ← w.settings path
  (Engine.build s none).mapError .ofBuildError

end Surroundings

def runExchange (w : Surroundings) (format : Format) (e : Engine) (content : String)
    (t : ExchangeTask) : Answer :=
  let request : Request := ⟨content, t.source, t.target, t.overrides.resolve e.setup.options⟩
  let floor := e.setup.settings.accuracyFloorFor t.target
  let shown (accepted : Bool) (x : Exchange) : String :=
    (ExchangeReport.report w.now ⟨t.source, t.target, accepted, floor, x⟩).render format
  match (e.exchange request).2 with
  | .ok x => { stdout := shown true x }
  | .error f =>
    { stdout := (f.partialResult.map (shown false)).getD "", problem := some (.exchange f) }

/-- The code of a summary that says that a content cannot be read. -/
def failedCode : String := "VALIDATION_FAILED"

def runValidate (w : Surroundings) (format : Format) (e : Engine) (content platform : String) :
    Answer :=
  match e.validate content platform with
  | .error f => { problem := some (.exchange f) }
  | .ok v =>
    { stdout := (validationReport w.now v).render format
      problem := if v.summary.code = failedCode then some (.invalid v.platform) else none }

def misfitText : Json.Misfit → String
  | .malformed => "malformed text"
  | .unfit message => message

def runBatch (w : Surroundings) (format : Format) (e : Engine) (text : String) : Answer :=
  match Json.decodeText (Json.Decode.list BatchRequest.decoder) text.toList with
  | .error m => { problem := some (.json (misfitText m)) }
  | .ok requests =>
    let limit := e.setup.settings.server.maxBatchSize
    if limit < requests.length then
      { problem := some (.command ("batch holds " ++ toString requests.length ++
          " requests, limit is " ++ toString limit)) }
    else
      let result := (e.exchangeBatch w.fresh requests).2
      let report := BatchReport.ofResult result (requests.map (·.target))
      { stdout := report.report.render format
        problem :=
          if report.failureCount = 0 then none
          else some (.incomplete report.failureCount report.lines.length) }

/-- The parts of the settings that can be shown alone. -/
def settingsParts (s : Settings) : List (String × Json.Value) :=
  [("general", s.general.toJson), ("server", s.server.toJson), ("engine", s.engine.toJson),
    ("metrics", s.metrics.toJson), ("platforms", Settings.platformsJson s.platforms)]

def settingsText (s : Settings) (part : Option String) : Except Problem String :=
  match part with
  | none => .ok s.toToml
  | some name =>
    match Json.lookup name (settingsParts s) with
    | some v => .ok (Toml.document v)
    | none => .error (.command ("unknown section: " ++ name ++ " (expected: " ++
        Text.joined ", " ((settingsParts s).map (·.1)) ++ ")"))

/-- The answer to an invocation. -/
def run (w : Surroundings) (i : Invocation) : Answer :=
  match i.task with
  | .exchange t => .ofExcept do
    let content ← w.input t.input
    let e ← w.engine i.settings
    return runExchange w i.format e content t
  | .validate input platform => .ofExcept do
    let content ← w.input input
    let e ← w.engine i.settings
    return runValidate w i.format e content platform
  | .batch file => .ofExcept do
    let text ← w.input file
    let e ← w.engine i.settings
    return runBatch w i.format e text
  | .platforms => .ofExcept do
    let e ← w.engine i.settings
    return { stdout := (platformsReport e.platforms).render i.format }
  | .checkSettings =>
    match w.settings i.settings with
    | .ok _ => { stdout := (checkReport i.settings none).render i.format }
    | .error p =>
      { stdout := (checkReport i.settings (some p.message)).render i.format
        problem := some (.settings "configuration is invalid") }
  | .showSettings part => .ofExcept do
    let s ← w.settings i.settings
    let toml ← settingsText s part
    return { stdout := (settingsReport i.settings part toml).render i.format }

end RuleExchange.Cli
