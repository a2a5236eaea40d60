import RuleExchange.Json.Decode

/-! Warnings: a stable code, a sentence and a level. -/

namespace RuleExchange

inductive Level where
  | info
  | minor
  | major
  deriving DecidableEq, Repr

namespace Level

def name : Level → String
  | info => "info"
  | minor => "minor"
  | major => "major"

def rank : Level → Nat
  | info => 0
  | minor => 1
  | major => 2

def higher (a b : Level) : Level := if a.rank < b.rank then b else a

def decoder : Json.Decoder Level := fun o v => do
  let s ← Json.Decode.choice ["info", "minor", "major"] none o v
  return if s = "info" then info else if s = "minor" then minor else major

end Level

structure Warning where
  code : String
  message : String
  level : Level
  deriving DecidableEq, Repr

namespace Warning

def info (code message : String) : Warning := ⟨code, message, .info⟩

def minor (code message : String) : Warning := ⟨code, message, .minor⟩

def major (code message : String) : Warning := ⟨code, message, .major⟩

def toJson (w : Warning) : Json.Value :=
  .obj [("code", .str w.code), ("message", .str w.message), ("level", .str w.level.name)]

def shape : Json.Decode.Shape :=
  { name := "Warning", fields := [("code", .required), ("message", .required), ("level", .required)] }

def decoder : Json.Decoder Warning := fun o v => open Json.Decode in do
  let check (key : String) (x : Json.Source) : Except Json.Misfit Unit :=
    if key = "level" then ignore (Level.decoder o x) else ignore (string o x)
  let found ← record shape check o v
  let code ← field string o found "code" ""
  let message ← field string o found "message" ""
  let level ← field Level.decoder o found "level" .info
  return ⟨code, message, level⟩

/-- The highest level among warnings. -/
def maxLevel : List Warning → Option Level
  | [] => none
  | w :: ws =>
    match maxLevel ws with
    | none => some w.level
    | some l => some (w.level.higher l)

end Warning

end RuleExchange
