import RuleExchange.Settings.Check
import RuleExchange.Settings.Environment
import RuleExchange.Toml.Reader
import RuleExchange.Toml.Writer

/-! Settings from a file: the text is read, checked, put under the environment and
checked again. -/

namespace RuleExchange.Settings

/-- What can go wrong on the way from a file to settings. -/
inductive LoadError where
  | notFound (path : String)
  | unreadable (reason : String)
  | malformed (reason : String)
  | invalid (fault : Fault)
  deriving DecidableEq, Repr

/-- The message without the kind of trouble in front. -/
def LoadError.detail : LoadError → String
  | .notFound path => "config file not found: " ++ path
  | .unreadable reason => reason
  | .malformed reason => "failed to parse config: " ++ reason
  | .invalid f => f.message

def LoadError.message : LoadError → String
  | .unreadable reason => "io error: " ++ reason
  | e => "config error: " ++ e.detail

def misfitText : Json.Misfit → String
  | .malformed => "malformed"
  | .unfit message => message

/-- Settings from the text of a file; what the text leaves out has its default. -/
def ofText (text : String) : Except LoadError Settings :=
  match Toml.ofText? text.toList with
  | none => .error (.malformed "the text is not TOML")
  | some v => (decoder .lenient (.ofValue v)).mapError fun e => .malformed (misfitText e)

/-- The settings of a file under an environment. -/
def load (text : String) (env : Environment) : Except LoadError Settings := do
  let s ← ofText text
  s.validate.mapError .invalid
  let s := s.withEnvironment env
  s.validate.mapError .invalid
  return s

def toToml (s : Settings) : String := Toml.document s.toJson

end RuleExchange.Settings
