import RuleExchange.Quality.Metrics
import RuleExchange.SemVer

/-! The universal format: a rule body in its stored form with an identity, the profile
of the platform it came from, its metrics and who made it. -/

namespace RuleExchange

inductive Family where
  | siem
  | edr
  | nsm
  deriving DecidableEq, Repr

namespace Family

def name : Family → String
  | siem => "SIEM"
  | edr => "EDR"
  | nsm => "NSM"

def decoder : Json.Decoder Family := fun o v => do
  let s ← Json.Decode.choice ["SIEM", "EDR", "NSM"] none o v
  return if s = "SIEM" then siem else if s = "EDR" then edr else nsm

end Family

/-- What a platform can do: its window of versions, needs, abilities and hints. -/
structure Profile where
  minVersion : String
  maxVersion : String
  dependencies : List String := []
  /-- Ordered by name. -/
  capabilities : List (String × Bool) := []
  /-- Ordered by name. -/
  optimizations : List (String × String) := []
  deriving DecidableEq, Repr

namespace Profile

def supportsVersion (p : Profile) (version : String) : Except SemVer.Error Bool :=
  SemVer.inWindow version p.minVersion p.maxVersion

def supports (p : Profile) (capability : String) : Bool :=
  (Json.lookup capability p.capabilities).getD false

def toJson (p : Profile) : Json.Value :=
  .obj [("min_version", .str p.minVersion), ("max_version", .str p.maxVersion),
    ("dependencies", .strings p.dependencies),
    ("capabilities", .obj (p.capabilities.map fun (k, b) => (k, .bool b))),
    ("optimizations", .obj (p.optimizations.map fun (k, v) => (k, .str v)))]

def shape : Json.Decode.Shape :=
  { name := "PlatformMetadata"
    fields := [("min_version", .required), ("max_version", .required),
      ("dependencies", .defaulted), ("capabilities", .defaulted), ("optimizations", .defaulted)] }

def decoder : Json.Decoder Profile := fun o v => open Json.Decode in do
  let check (key : String) (x : Json.Source) : Except Json.Misfit Unit :=
    if key = "dependencies" then ignore (list string o x)
    else if key = "capabilities" then ignore (table bool o x)
    else if key = "optimizations" then ignore (table string o x)
    else ignore (string o x)
  let found ← record shape check o v
  return {
    minVersion := ← field string o found "min_version" ""
    maxVersion := ← field string o found "max_version" ""
    dependencies := ← field (list string) o found "dependencies" []
    capabilities := ← field (table bool) o found "capabilities" []
    optimizations := ← field (table string) o found "optimizations" [] }

end Profile

/-- Who made a rule, and what was done to it. -/
structure Audit where
  createdBy : String
  version : String
  changeLog : List String := []
  deriving DecidableEq, Repr

def Audit.toJson (a : Audit) : Json.Value :=
  .obj [("created_by", .str a.createdBy), ("version", .str a.version),
    ("change_log", .strings a.changeLog)]

namespace Audit

def shape : Json.Decode.Shape :=
  { name := "AuditInfo"
    fields := [("created_at", .required), ("updated_at", .required), ("created_by", .required),
      ("version", .required), ("change_log", .defaulted)] }

def decoder : Json.Decoder Audit := fun o v => open Json.Decode in do
  let check (key : String) (x : Json.Source) : Except Json.Misfit Unit :=
    if key = "change_log" then ignore (list string o x)
    else if key = "created_at" ∨ key = "updated_at" then Metrics.instant o x
    else ignore (string o x)
  let found ← record shape check o v
  return {
    createdBy := ← field string o found "created_by" ""
    version := ← field string o found "version" ""
    changeLog := ← field (list string) o found "change_log" [] }

end Audit

structure Universal where
  id : String
  version : String
  name : Option String := none
  description : Option String := none
  /-- The stored form of a rule body. -/
  content : String
  family : Family
  profile : Profile
  metrics : Metrics
  /-- Ordered, each tag once. -/
  tags : List String := []
  audit : Audit

namespace Universal

def optionalMember (name : String) (v : Option String) : List (String × Json.Value) :=
  match v with
  | some s => [(name, .str s)]
  | none => []

def toJson (u : Universal) : Json.Value :=
  .obj ([("id", .str u.id), ("version", .str u.version)] ++ optionalMember "name" u.name ++
    optionalMember "description" u.description ++
    [("content", .str u.content), ("platform", .str u.family.name),
      ("platform_specific_data", u.profile.toJson), ("metrics", u.metrics.toJson),
      ("tags", .strings u.tags), ("audit_trail", u.audit.toJson)])

def insertTag (t : String) : List String → List String
  | [] => [t]
  | u :: us => if t = u then u :: us else if t < u then t :: u :: us else u :: insertTag t us

def tagSet (ts : List String) : List String := ts.foldl (fun acc t => insertTag t acc) []

def shape : Json.Decode.Shape :=
  { name := "UniversalFormat"
    fields := [("id", .required), ("version", .required), ("name", .defaulted),
      ("description", .defaulted), ("content", .required), ("platform", .required),
      ("platform_specific_data", .required), ("metrics", .required), ("tags", .defaulted),
      ("audit_trail", .required)] }

def decoder : Json.Decoder Universal := fun o v => open Json.Decode in do
  let check (key : String) (x : Json.Source) : Except Json.Misfit Unit :=
    if key = "name" ∨ key = "description" then ignore (option string o x)
    else if key = "platform" then ignore (Family.decoder o x)
    else if key = "platform_specific_data" then ignore (Profile.decoder o x)
    else if key = "metrics" then ignore (Metrics.decoder o x)
    else if key = "tags" then ignore (list string o x)
    else if key = "audit_trail" then ignore (Audit.decoder o x)
    else ignore (string o x)
  let found ← record shape check o v
  return {
    id := ← field string o found "id" ""
    version := ← field string o found "version" ""
    name := ← field (option string) o found "name" none
    description := ← field (option string) o found "description" none
    content := ← field string o found "content" ""
    family := ← field Family.decoder o found "platform" .siem
    profile := ← field Profile.decoder o found "platform_specific_data" ⟨"", "", [], [], []⟩
    metrics := ← field Metrics.decoder o found "metrics" (.ofScores 0.0 0.0 .unknown [])
    tags := tagSet (← field (list string) o found "tags" [])
    audit := ← field Audit.decoder o found "audit_trail" ⟨"", "", []⟩ }

/-- Why a universal rule is not well formed. -/
inductive Flaw where
  | emptyContent
  | emptyId
  | scoreRange (name : String) (score : Float)
  | unknownImpact

def Flaw.message : Flaw → String
  | .emptyContent => "UDF content is empty"
  | .emptyId => "UDF id is empty"
  | .scoreRange name score => name ++ " " ++ Decimal.plain.write score ++ " is outside [0, 1]"
  | .unknownImpact => "performance_impact must be low, medium or high"

def inUnit (x : Float) : Bool := 0.0 ≤ x && x ≤ 1.0

def scores (m : Metrics) : List (String × Float) :=
  [("accuracy_score", m.accuracy), ("false_positive_rate", m.falsePositives),
    ("confidence_score", m.confidence)]

/-- The first flaw: content, identity, scores outside the unit interval, an unknown impact. -/
def flaw? (u : Universal) : Option Flaw :=
  if Text.isBlankString u.content then some .emptyContent
  else if Text.isBlankString u.id then some .emptyId
  else match (scores u.metrics).find? fun (_, x) => !inUnit x with
    | some (name, x) => some (.scoreRange name x)
    | none => if u.metrics.impact = .unknown then some .unknownImpact else none

end Universal

end RuleExchange
