import RuleExchange.Engine.Service
import RuleExchange.Settings.Source
import RuleExchange.Storage

/-!
What can go wrong on the command line, with the message and the exit code of each:
2 for settings, 3 for a rule or an exchange that failed, 4 for reading, 1 for the rest.
-/

namespace RuleExchange.Cli

inductive Problem where
  | settings (reason : String)
  | command (reason : String)
  | exchange (failure : Failure)
  /-- The platform cannot make sense of the content. -/
  | invalid (platform : String)
  /-- Some items of a batch failed. -/
  | incomplete (failed total : Nat)
  | json (reason : String)
  | unreadable (path : String) (fault : Storage.Fault)
  | io (reason : String)

namespace Problem

def message : Problem → String
  | settings reason => "configuration error: " ++ reason
  | command reason => reason
  | exchange f => "translation failed: " ++ f.message
  | invalid platform => "content is not valid " ++ platform
  | incomplete failed total =>
    toString failed ++ " of " ++ toString total ++ " item(s) failed"
  | json reason => "json error: " ++ reason
  | unreadable path fault => "failed to read " ++ path ++ ": " ++ fault.message
  | io reason => "io error: " ++ reason

def exitCode : Problem → Nat
  | settings _ => 2
  | exchange _ | invalid _ | incomplete _ _ => 3
  | unreadable _ _ | io _ => 4
  | command _ | json _ => 1

def ofLoadError : Settings.LoadError → Problem
  | .unreadable reason => io reason
  | e => settings e.detail

def ofBuildError (e : Engine.BuildError) : Problem := settings e.message

end Problem

end RuleExchange.Cli
