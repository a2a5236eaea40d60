import RuleExchange.Platform.Conversion
import RuleExchange.Settings.Basic

/-! The registry finds platforms by name. Names are compared without surrounding blanks
and without regard to ASCII case. Settings tune the platforms they name; a section for a
platform that does not exist is an error. -/

namespace RuleExchange

/-- Platforms by name, ordered by name. -/
structure Registry where
  platforms : List (String × Platform) := []

namespace Registry

inductive Error where
  | unknownPlatform (name : String)
  | config (field reason : String)
  deriving DecidableEq, Repr

def Error.kind : Error → String
  | .unknownPlatform _ => "unknown_platform"
  | .config _ _ => "config"

def Error.message : Error → String
  | .unknownPlatform name => "unknown platform: " ++ name
  | .config field reason => "config error: " ++ field ++ ": " ++ reason

def register (r : Registry) (p : Platform) : Registry :=
  ⟨Json.insertMember (Text.lowered p.id) p r.platforms⟩

/-- The form of a name under which a platform is found. -/
def key (name : String) : String := String.ofList (Text.asciiLower (Text.trim name.toList))

def find? (r : Registry) (name : String) : Option Platform := Json.lookup (key name) r.platforms

def get (r : Registry) (name : String) : Except Error Platform :=
  match r.find? name with
  | some p => .ok p
  | none => .error (.unknownPlatform name)

def contains (r : Registry) (name : String) : Bool := (r.find? name).isSome

def ids (r : Registry) : List String := r.platforms.map (·.1)

def size (r : Registry) : Nat := r.platforms.length

/-- The built-in platforms without any settings. -/
def standard : Registry := Platform.builtIn.foldl register {}

def compileRule (name source : String) : Except Error (String × Regex.Pattern) :=
  match Regex.Pattern.ofText? source.toList with
  | some p => .ok (name, p)
  | none => .error (.config ("validation_rules." ++ name) "not a regular expression")

def tune (p : Platform) (s : Settings.Platform) : Except Error Platform := do
  let rules ← s.validationRules.mapM fun (name, source) => compileRule name source
  return { p with tuning :=
    { maxContentSize := s.maxContentSize, rules, deployedVersion := some s.version } }

def addTuned (s : Settings) (r : Registry) (p : Platform) : Except Error Registry :=
  match s.platform? p.id with
  | none => .ok (r.register p)
  | some given => do
    let p ← tune p given
    return r.register p

def isBuiltIn (name : String) : Bool := Platform.builtIn.any fun p => p.id == Text.lowered name

/-- The built-in platforms under the given settings. -/
def ofSettings (s : Settings) : Except Error Registry :=
  match s.platforms.find? fun (name, _) => !isBuiltIn name with
  | some (name, _) =>
    .error (.config ("platforms." ++ name) ("no translator is registered for '" ++ name ++ "'"))
  | none => Platform.builtIn.foldlM (addTuned s) {}

/-- The names of the registered platforms, as shown to developers. -/
def debug (r : Registry) : String :=
  "TranslatorRegistry \x7b platforms: [" ++
    Text.joined ", " (r.ids.map Text.Literal.showText) ++ "] \x7d"

end Registry

end RuleExchange
