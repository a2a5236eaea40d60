import RuleExchange.Engine.Request
import RuleExchange.Platform.Conversion

/-! The work of one exchange: read the source's rule into the universal format, check
it, write it in the target's language and validate what was written. The result is then
held against the floor of accuracy. -/

namespace RuleExchange

/-- How the rules of a platform are read. -/
abbrev RuleReader := Platform → String → Except Failure Universal

/-- A written rule before the floor is applied. -/
structure Draft where
  content : String
  metrics : Metrics
  warnings : List Warning

namespace Pipeline

/-- A flaw of the universal rule ends a strict exchange and is a warning in a lenient one. -/
def flawWarnings (source : Platform) (strict : Bool) (u : Universal) :
    Except Failure (List Warning) :=
  match u.flaw? with
  | none => .ok []
  | some flaw =>
    if strict then .error (.validation source.id flaw.message)
    else .ok [.major "UDF_INVALID" flaw.message]

def draft (read : RuleReader) (source target : Platform) (content : String) (o : Options) :
    Except Failure Draft := do
  let u ← read source content
  let flaws ← flawWarnings source o.strict u
  let written ← target.fromStored u.content o.conversion
  let metrics ← target.validate written.content
  return ⟨written.content, metrics, flaws ++ written.warnings ++ metrics.warnings⟩

/-- The result, unless its accuracy is below the floor. -/
def finish (floor : Float) (target : Platform) (d : Draft) : Outcome :=
  let m := d.metrics
  let result : Exchange :=
    { content := d.content, metrics := m, warnings := d.warnings
      confidence := confidence m.accuracy m.falsePositives m.impact }
  if m.accuracy < floor then .error (.belowFloor target.id m.accuracy floor result)
  else .ok result

end Pipeline

end RuleExchange
