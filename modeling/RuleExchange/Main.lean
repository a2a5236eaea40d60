import RuleExchange.Cli.Run
import RuleExchange.Engine.ItemName
import RuleExchange.Instant.Text
import Std.Time.DateTime.Timestamp

/-!
The command line program. What a run may look at is gathered first; everything else
is decided by `RuleExchange.Cli.run`.
-/

namespace RuleExchange.Cli

def faultOf : IO.Error → Storage.Fault
  | .noFileOrDirectory _ _ _ => .absent
  | .inappropriateType _ _ _ => .folder
  | _ => .notText

def attempt (action : IO String) : IO (Except Storage.Fault String) := do
  try
    return .ok (← action)
  catch e => return .error (faultOf e)

partial def readAll (input : IO.FS.Stream) (read : String) : IO String := do
  let line ← input.getLine
  if line.isEmpty then return read else readAll input (read ++ line)

def environment : IO Settings.Environment := do
  let found ← Settings.readVariables.mapM fun v => do
    return (← IO.getEnv v.name).map fun text => (v.name, text)
  return found.filterMap id

/-- Looks at everything that a run of the invocation may need. -/
def surroundings (i : Invocation) : IO Surroundings := do
  let files ← i.paths.mapM fun (path : String) => do
    return (path, ← attempt (IO.FS.readFile path))
  let stdin ← if i.input? = some "-" then attempt (readAll (← IO.getStdin) "") else pure (.ok "")
  let now ← Std.Time.Timestamp.now
  let seconds := now.toSecondsSinceUnixEpoch.val.toNat
  let nanos := now.toNanosecondsSinceUnixEpoch.val.toNat % 1000000000
  let seed ← IO.rand 0 (Nat.pow 2 62)
  return {
    read := fun path => (Json.lookup path files).getD (.error .absent)
    stdin
    environment := ← environment
    now := Instant.text seconds nanos
    fresh := itemName seed }

def explainMisuse (m : CommandLine.Misuse) : IO Unit :=
  match m with
  | .help => IO.print (unlines Invocation.command.usage)
  | .version => IO.println (Invocation.command.name ++ " 0.1.0")
  | .nothingGiven => IO.eprint (unlines Invocation.command.usage)
  | m => IO.eprintln ("error: " ++ m.message)

end RuleExchange.Cli

open RuleExchange.Cli in
/-- Runs a command line and returns its exit code. -/
def main (words : List String) : IO UInt32 := do
  match Invocation.ofWords words with
  | .error m =>
    explainMisuse m
    return m.exitCode.toUInt32
  | .ok i =>
    let answer := run (← surroundings i) i
    IO.print answer.stdout
    match answer.stderr with
    | some text => IO.eprintln ("error: " ++ text)
    | none => pure ()
    return answer.exitCode.toUInt32
