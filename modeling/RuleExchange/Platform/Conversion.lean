import RuleExchange.Failure
import RuleExchange.Platform.Basic
import RuleExchange.Quality.Analyzer

/-! Conversion between a platform's language and the universal format, and validation
of a platform's content. -/

namespace RuleExchange.Platform

def size (s : List Char) : Nat := Text.octets s

/-- The content without comments, unless it is too long or nothing is left. -/
def prepare (p : Platform) (raw : List Char) : Except String Comment.Stripped :=
  if p.tuning.maxContentSize < size raw then
    .error ("content is " ++ toString (size raw) ++ " bytes; limit is " ++
      toString p.tuning.maxContentSize)
  else
    let stripped := Comment.strip p.style raw
    if stripped.text.isEmpty then .error "content is empty after removing comments"
    else .ok stripped

/-- The patterns that a text does not match. -/
def failedPatterns (p : Platform) (text : List Char) : List String :=
  (p.patterns.filter fun x => !x.pattern.occursIn text).map (·.source)

/-- The faults of form of a rule: missing fields, patterns, configured rules. -/
def conformance (p : Platform) (raw text : List Char) (missing : List String) : Conformance :=
  let c := missing.foldl Conformance.missingField {}
  let c := (p.failedPatterns text).foldl Conformance.formViolation c
  (p.tuning.rules.filter fun (_, r) => !r.occursIn raw).foldl
    (fun c (name, _) => c.ruleViolation name) c

def assess (p : Platform) (raw text : List Char) (b : RuleBody) : Metrics :=
  p.analyzer.assess b (p.conformance raw text (p.language.missingFields text b))

/-- The title in a comment, where the rule itself has none, or a title for untitled rules. -/
def entitle (p : Platform) (stripped : Comment.Stripped) (b : RuleBody) : RuleBody :=
  let named : RuleBody :=
    if Text.isBlankString b.title then
      { b with title := (stripped.title.map String.ofList).getD b.title }
    else b
  if Text.isBlankString named.title then { named with title := "untitled " ++ p.id ++ " rule" }
  else named

/-- The body of a rule whose comments have been taken out. -/
def parseStripped (p : Platform) (stripped : Comment.Stripped) : Except String RuleBody :=
  (p.language.parse stripped.text).map (p.entitle stripped)

/-- The identity of a rule: eight octets of the digest of the platform's name and the title. -/
def identity (p : Platform) (title : String) : String :=
  "udf-" ++ Digest.hex ((Digest.sha256 (Digest.utf8 p.id ++ 0 :: Digest.utf8 title)).take 8)

/-- A body and its metrics in the universal format. -/
def envelope (p : Platform) (b : RuleBody) (m : Metrics) : Universal :=
  let version := (Json.lookup "rev" b.references).getD "1"
  { id := p.identity b.title
    version
    name := some b.title
    description := Json.lookup "classtype" b.references
    content := b.toText
    family := p.family
    profile := p.profile
    metrics := m
    tags := Universal.tagSet ([p.id, Text.lowered p.family.name] ++ b.event.toList)
    audit :=
      { createdBy := "udfbridge", version, changeLog := ["converted from " ++ p.id] } }

/-- A native rule in the universal format. -/
def toUniversal (p : Platform) (raw : String) : Except Failure Universal := do
  let stripped ← (p.prepare raw.toList).mapError (Failure.parse p.id)
  match p.failedPatterns stripped.text with
  | pattern :: _ =>
    .error (.parse p.id ("content does not match required pattern '" ++ pattern ++ "'"))
  | [] =>
    let b ← (p.parseStripped stripped).mapError (Failure.parse p.id)
    return p.envelope b (p.assess raw.toList stripped.text b)

/-- The quality of a native rule; it fails only where the rule cannot be read at all. -/
def validate (p : Platform) (content : String) : Except Failure Metrics := do
  let stripped ← (p.prepare content.toList).mapError (Failure.validation p.id)
  let b ← (p.parseStripped stripped).mapError (Failure.validation p.id)
  return p.assess content.toList stripped.text b

/-! ### From the universal format -/

def stageWarnings (p : Platform) (dropped : Nat) : List Warning :=
  if dropped = 0 then []
  else [.minor "STAGE_DROPPED" (toString dropped ++
    " pipeline stage(s) from another dialect cannot run on " ++ p.id)]

def referenceWarnings (p : Platform) (b : RuleBody) : List Warning :=
  if p.language.carriesReferences || b.references.isEmpty then []
  else [.info "METADATA_DROPPED" (p.id ++ " cannot carry metadata: " ++
    Text.joined ", " (b.references.map (·.1)))]

/-- The part of a body that the platform can express, with what had to go. -/
def adapt (p : Platform) (b : RuleBody) (level : Nat) : RuleBody × List Warning :=
  let stages := b.stages.filter fun s => s.dialect == p.id
  let warnings :=
    p.stageWarnings (b.stages.length - stages.length) ++ p.referenceWarnings b
  let kept : RuleBody :=
    { b with stages, references := if p.language.carriesReferences then b.references else [] }
  (if 1 ≤ level then kept.prioritize else kept, warnings)

/-- What is to be said about the version of the target. -/
def versionWarnings (p : Platform) (target : Option String) : List Warning :=
  match target.orElse fun _ => p.tuning.deployedVersion with
  | none => []
  | some version =>
    match p.profile.supportsVersion version with
    | .ok true => []
    | .ok false => [.minor "VERSION_UNSUPPORTED" (p.id ++ " " ++ version ++
        " is outside the supported range " ++ p.profile.minVersion ++ "..=" ++
        p.profile.maxVersion)]
    | .error e => [.minor "VERSION_UNPARSEABLE" ("target version '" ++ version ++
        "' is not a semantic version: " ++ e.message)]

/-- The comments of a written rule. -/
def annotations (p : Platform) (b : RuleBody) (level : Nat) : List String :=
  ["name: " ++ b.title, "optimization_level: " ++ toString level] ++
    (if 1 ≤ level ∧ 1 < b.conditions.length then ["conditions ordered by selectivity"] else []) ++
    p.profile.optimizations.map fun (k, v) => k ++ ": " ++ v

/-- A written rule with what could not be said exactly. -/
structure Rendition where
  content : String
  warnings : List Warning
  deriving DecidableEq, Repr

/-- A stored body in the platform's language. -/
def fromStored (p : Platform) (content : String) (c : Conversion) : Except Failure Rendition := do
  let b ← (RuleBody.ofText content).mapError fun _ => Failure.conversion "udf" "malformed rule body"
  let (b, dropped) := p.adapt b c.level
  let notes := p.annotations b c.level
  let (written, said) ← (p.language.render b c notes).mapError (Failure.conversion p.id)
  let text :=
    if c.preserveComments then Comment.annotate p.style written (notes.map String.toList)
    else written
  if p.tuning.maxContentSize < size text then
    .error (.conversion p.id ("rendered content is " ++ toString (size text) ++
      " bytes; limit is " ++ toString p.tuning.maxContentSize))
  else
    return ⟨String.ofList text, dropped ++ p.versionWarnings c.targetVersion ++ said⟩

end RuleExchange.Platform
