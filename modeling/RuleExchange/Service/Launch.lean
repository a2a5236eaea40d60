import RuleExchange.CommandLine.Reader
import RuleExchange.Engine.Service
import RuleExchange.Service.Address
import RuleExchange.Settings.Source
import RuleExchange.Storage

/-!
Starting the service: its command line, whose values win over those of the file and
the environment, its addresses, and the way from a settings file to an engine.
-/

namespace RuleExchange.Service

open CommandLine (Parameter Command)

/-! ### Command line -/

structure LaunchOptions where
  settings : String
  logLevel : Option String
  logFormat : Option String
  pidFile : Option String
  /-- Whether the settings are only checked. -/
  validate : Bool
  deriving DecidableEq, Repr

namespace LaunchOptions

def defaultSettings : String := "/etc/udfbridge/udfbridge.toml"

def command : Command := .mk "udfbridged"
  [{ name := "config", short := some 'c', effect := .value .path },
    { name := "log-level", effect := .value .text },
    { name := "log-format", effect := .value .text },
    { name := "validate", effect := .flag },
    { name := "pid-file", effect := .value .text },
    CommandLine.helpOption, CommandLine.versionOption] [] []

def ofWords (words : List String) : Except CommandLine.Misuse LaunchOptions := do
  let g ← CommandLine.read command words
  return {
    settings := (g.value? "config").getD defaultSettings
    logLevel := g.value? "log-level"
    logFormat := g.value? "log-format"
    pidFile := g.value? "pid-file"
    validate := g.has "validate" }

/-- What the command line gives wins. -/
def general (o : LaunchOptions) (g : Settings.General) : Settings.General :=
  { g with
    logLevel := o.logLevel.getD g.logLevel
    logFormat := o.logFormat.getD g.logFormat
    pidFile := o.pidFile.getD g.pidFile }

def apply (o : LaunchOptions) (s : Settings) : Settings := { s with general := o.general s.general }

end LaunchOptions

/-! ### Addresses -/

inductive AddressError where
  | server
  | metrics
  | endpoint (path : String)
  deriving DecidableEq, Repr

def AddressError.message : AddressError → String
  | server => "invalid server listen address: invalid socket address syntax"
  | metrics => "invalid metrics listen address: invalid socket address syntax"
  | endpoint path => "unsupported metrics endpoint '" ++ path ++
      "': only '/metrics' is currently supported"

def addressOf (host : String) (number : Nat) : Option Address :=
  Address.ofText? (host ++ ":" ++ toString number).toList

/-- Where the web interface listens. -/
def apiAddress (s : Settings) : Except AddressError Address :=
  match addressOf s.server.listenAddr s.server.listenPort with
  | some a => .ok a
  | none => .error .server

/-- Where measurements are collected. -/
def metricsAddress (e : Settings.Endpoint) : Except AddressError Address :=
  if e.path != "/metrics" then .error (.endpoint e.path)
  else match addressOf e.listenAddr e.listenPort with
    | some a => .ok a
    | none => .error .metrics

/-! ### Building -/

inductive LaunchError where
  | load (error : Settings.LoadError)
  | invalid (fault : Settings.Fault)
  | address (error : AddressError)
  | engine (error : Engine.BuildError)
  deriving DecidableEq, Repr

def LaunchError.message : LaunchError → String
  | load e => "failed to load config: " ++ e.message
  | invalid f => "config validation failed: config error: " ++ f.message
  | address e => e.message
  | engine e => "failed to build translation engine: " ++ e.message

/-- An engine from settings; measurements need an address when they are enabled. -/
def ofSettings (s : Settings) : Except LaunchError Engine := do
  s.validate.mapError .invalid
  if s.metrics.enabled then
    let _ ← (metricsAddress s.metrics).mapError .address
  (Engine.build s none).mapError .engine

/-- An engine from the file of the settings. -/
def build (read : String → Except Storage.Fault String) (env : Settings.Environment)
    (path : String) : Except LaunchError Engine := do
  let text ← (read path).mapError fun f =>
    match f with
    | .absent => .load (.notFound path)
    | f => .load (.unreadable f.message)
  let s ← (Settings.load text env).mapError .load
  ofSettings s

end RuleExchange.Service
