import RuleExchange.Storage
import RuleExchange.Text.Blank

/-!
The file that holds the number of the running process. It is created only where
nothing stands yet, so that no second process starts beside the first.
-/

namespace RuleExchange.Service.PidFile

inductive Error where
  /-- A process has left its number here. -/
  | taken (path owner : String)
  | storage (fault : Storage.Fault)
  deriving DecidableEq, Repr

def Error.message : Error → String
  | taken path owner => "PID file " ++ path ++ " already exists with PID: " ++ owner ++
      ". Is another instance running?"
  | storage fault => fault.message

/-- The number found in a file, as it is shown. -/
def owner (s : Storage) (path : String) : String :=
  match s.read path with
  | .ok text => Text.trimmed text
  | .error _ => "unknown"

def write (s : Storage) (path pid : String) : Except Error Storage := do
  let s ← (s.makeFolders (Storage.trail path).dropLast).mapError .storage
  match s.create path (pid ++ "\n") with
  | .ok s => .ok s
  | .error .present => .error (.taken path (owner s path))
  | .error f => .error (.storage f)

end RuleExchange.Service.PidFile
