import RuleExchange.CommandLine.Reader
import RuleExchange.Engine.Options

/-!
The command line of the rule exchange: what can be asked for, and how it is written.
-/

namespace RuleExchange.Cli

open CommandLine (Parameter Command)

/-- How answers are written. -/
inductive Format where
  | text
  | json
  deriving DecidableEq, Repr

structure ExchangeTask where
  /-- The file of the rule, or a dash for the standard input. -/
  input : String
  source : String
  target : String
  overrides : Overrides := {}
  deriving DecidableEq, Repr

inductive Task where
  | exchange (task : ExchangeTask)
  | validate (input platform : String)
  | batch (file : String)
  | platforms
  | checkSettings
  | showSettings (part : Option String)
  deriving DecidableEq, Repr

structure Invocation where
  /-- The file of the settings; without it the defaults hold. -/
  settings : Option String
  logLevel : Option String
  format : Format
  task : Task
  deriving DecidableEq, Repr

namespace Invocation

def place (name : String) : Parameter := { name, effect := .value .path, required := true }

def option (name : String) (kind : CommandLine.ValueKind) (required : Bool) : Parameter :=
  { name, effect := .value kind, required }

def flag (name : String) : Parameter := { name, effect := .flag }

def shared : List Parameter := [
  { name := "config", short := some 'c', effect := .value .path, shared := true },
  { name := "log-level", effect := .value .text, shared := true },
  { name := "output", effect := .value (.oneOf ["text", "json"]), shared := true }]

def exchangeCommand : Command := .mk "translate"
  [option "from" .text true, option "to" .text true, option "optimization-level" (.whole 8) false,
    flag "no-strict", flag "preserve-comments", option "timeout-secs" (.whole 64) false,
    option "target-version" .text false, option "source-version" .text false,
    CommandLine.helpOption]
  [place "input"] []

def validateCommand : Command :=
  .mk "validate" [option "platform" .text true, CommandLine.helpOption] [place "input"] []

def batchCommand : Command := .mk "batch" [CommandLine.helpOption] [place "file"] []

def platformsCommand : Command := .mk "platforms" [CommandLine.helpOption] [] []

def settingsCommand : Command := .mk "config" [CommandLine.helpOption] []
  [.mk "validate" [CommandLine.helpOption] [] [],
    .mk "show" [option "section" .text false, CommandLine.helpOption] [] []]

def command : Command := .mk "udfbridge"
  (shared ++ [CommandLine.helpOption, CommandLine.versionOption]) []
  [exchangeCommand, validateCommand, batchCommand, platformsCommand, settingsCommand]

def number? (g : CommandLine.Given) (name : String) (bits : Nat) : Option Nat :=
  (g.value? name).bind fun v => CommandLine.readWhole bits v.toList

/-- A whole number of seconds in milliseconds, at most the largest word. -/
def millis (secs : Nat) : Nat := min (1000 * secs) Options.maxMillis

/-- A flag turns an option on or off, its absence leaves it alone. -/
def overridesOf (g : CommandLine.Given) : Overrides :=
  { timeoutMs := (number? g "timeout-secs" 64).map millis
    level := number? g "optimization-level" 8
    strict := if g.has "no-strict" then some false else none
    preserveComments := if g.has "preserve-comments" then some true else none
    targetVersion := g.value? "target-version"
    sourceVersion := g.value? "source-version" }

def taskOf (g : CommandLine.Given) : Task :=
  let word (name : String) : String := (g.value? name).getD ""
  match g.chosen with
  | ["translate"] => .exchange ⟨word "input", word "from", word "to", overridesOf g⟩
  | ["validate"] => .validate (word "input") (word "platform")
  | ["batch"] => .batch (word "file")
  | ["config", "validate"] => .checkSettings
  | ["config", "show"] => .showSettings (g.value? "section")
  | _ => .platforms

/-- Reads the words after the name of the program. -/
def ofWords (words : List String) : Except CommandLine.Misuse Invocation := do
  let g ← CommandLine.read command words
  return {
    settings := g.value? "config"
    logLevel := g.value? "log-level"
    format := if g.value? "output" = some "json" then .json else .text
    task := taskOf g }

/-- The file or dash that a task reads. -/
def input? (i : Invocation) : Option String :=
  match i.task with
  | .exchange t => some t.input
  | .validate input _ => some input
  | .batch file => some file
  | _ => none

/-- Every file that a run may read. -/
def paths (i : Invocation) : List String :=
  i.settings.toList ++ (i.input?.toList.filter (· != "-"))

end Invocation

end RuleExchange.Cli
