import RuleExchange.Comment
import RuleExchange.Document.Reader
import RuleExchange.Document.Writer
import RuleExchange.Quality.Analyzer
import RuleExchange.Query.Reader
import RuleExchange.Query.Writer
import RuleExchange.Regex.Reader
import RuleExchange.Signature.Body
import RuleExchange.Signature.Reader
import RuleExchange.Universal
import RuleExchange.Zeek.Reader

/-! Platforms: the language a platform's rules are written in, the patterns that every
rule has to match, and the profile of what it supports. Eleven platforms are built in;
three of them are the generic ones of their family. -/

namespace RuleExchange

/-- The languages of rules. -/
inductive Language where
  /-- Queries; the generic one also reads signatures. -/
  | query (dialect : Query.Dialect) (readsSignatures : Bool)
  | signature (flavor : Signature.Flavor)
  | zeek
  /-- Documents; the generic one also reads event queries. -/
  | document (vendor : Document.Vendor) (readsQueries : Bool)

/-- What the writer of a rule may know beside the rule. -/
structure Conversion where
  level : Nat := 0
  preserveComments : Bool := false
  targetVersion : Option String := none
  deriving DecidableEq, Repr

namespace Language

/-- A rule without comments as a body, or the reason why it is none. -/
def parse (l : Language) (s : List Char) : Except String RuleBody :=
  match l with
  | query d readsSignatures =>
    if readsSignatures && Signature.looksLike s then
      ((Signature.parse s).map Signature.toBody).mapError Signature.Error.message
    else (Query.parse d s).mapError Query.Error.message
  | signature _ => ((Signature.parse s).map Signature.toBody).mapError Signature.Error.message
  | zeek => (Zeek.parse s).mapError Zeek.Error.message
  | document vendor readsQueries =>
    if readsQueries && !Document.looksLike s then
      (Query.parse .eql s).mapError Query.Error.message
    else (Document.parse vendor s).mapError Document.Error.message

/-- The span of time that tuned queries of one dialect are limited to. -/
def timeWindow (d : Query.Dialect) (b : RuleBody) (level : Nat) : List Char :=
  if d.id = Query.Dialect.qradar.id ∧ 2 ≤ level ∧ b.stages.isEmpty then " LAST 24 HOURS".toList
  else []

/-- A body in the language, or the reason why it cannot be written; `notes` are the comments that
a document carries in itself. -/
def render (l : Language) (b : RuleBody) (c : Conversion) (notes : List String) :
    Except String (List Char × List Warning) :=
  match l with
  | query d _ =>
    ((Query.render d b).map fun t => (t ++ timeWindow d b c.level, [])).mapError
      Query.Error.message
  | signature flavor =>
    let (s, warnings) := Signature.ofBody b flavor c.level
    .ok (s.text, warnings)
  | zeek => .ok (Zeek.render b)
  | document vendor _ =>
    .ok (Document.render vendor b (if c.preserveComments then some notes else none))

/-- Fields that a rule of the language must have and lacks. -/
def missingFields (l : Language) (s : List Char) (b : RuleBody) : List String :=
  match l with
  | query _ _ => []
  | signature flavor =>
    let required := if flavor = .generic then "msg" else "sid"
    match Signature.parse s with
    | .ok sig => if sig.hasOption required then [] else [required]
    | .error _ => []
  | zeek => []
  | document vendor _ =>
    if Document.looksLike s then Document.missingKeys vendor s
    else if b.event.isNone then [Field.eventType]
    else []

/-- Whether references have a place in the language. -/
def carriesReferences : Language → Bool
  | query _ _ => false
  | _ => true

end Language

/-- What a configuration says about a platform. -/
structure Tuning where
  maxContentSize : Nat := 1048576
  /-- Named expressions that every content must match. -/
  rules : List (String × Regex.Pattern) := []
  deployedVersion : Option String := none

/-- A pattern that every rule of a platform matches, with its written form. -/
structure Structure where
  source : String
  pattern : Regex.Pattern

/-- A written pattern; one that cannot be read matches everywhere. -/
def Structure.of (source : String) : Structure :=
  ⟨source, (Regex.Pattern.ofText? source.toList).getD .empty⟩

structure Platform where
  id : String
  family : Family
  language : Language
  patterns : List Structure
  profile : Profile
  style : CommentStyle
  tuning : Tuning := {}
  analyzer : Analyzer := {}

namespace Platform

def abilities (wildcards correlation : Bool) : List (String × Bool) :=
  [("correlation", correlation), ("regex", true), ("wildcard", wildcards)]

def siem : Platform :=
  { id := "siem", family := .siem, language := .query .siem true
    patterns := [.of ("(?i)(->|<>|[\\w.$@]+\\s*(==|!=|=)|" ++
      "\\b(CONTAINS|MATCHES|I?LIKE|STARTSWITH|ENDSWITH)\\b)")]
    profile := { minVersion := "1.0.0", maxVersion := "1.99.0"
                 capabilities := abilities true false }
    style := .hash }

def splunk : Platform :=
  { id := "splunk", family := .siem, language := .query .splunk false
    patterns := [.of "(?i)^\\s*search\\b", .of "[\\w.$@]+\\s*!?="]
    profile :=
      { minVersion := "8.0.0", maxVersion := "9.9.0", dependencies := ["CIM"]
        capabilities := abilities true true
        optimizations := [("index", "scope searches with index and sourcetype"),
          ("tstats", "prefer tstats on accelerated data models")] }
    style := .backticks }

def qradar : Platform :=
  { id := "qradar", family := .siem, language := .query .qradar false
    patterns := [.of "(?is)^\\s*SELECT\\b.*\\bFROM\\b", .of "(?i)\\bWHERE\\b"]
    profile :=
      { minVersion := "7.3.0", maxVersion := "7.5.99", dependencies := ["DSM"]
        capabilities := abilities true false
        optimizations := [("time_window", "bound the scan with LAST n HOURS")] }
    style := .block }

def edr : Platform :=
  { id := "edr", family := .edr, language := .document .generic true
    patterns := [.of "(?i)^\\s*(\\\x7b|[A-Za-z_]\\w*\\s+where\\b)"]
    profile := { minVersion := "1.0.0", maxVersion := "1.99.0"
                 capabilities := abilities true false }
    style := .jsonKey }

/-- The pattern of documents of all vendors. -/
def vendorPattern : String := "(?s)^\\s*\\\x7b.*\\\x7d\\s*$"

def crowdstrike : Platform :=
  { id := "crowdstrike", family := .edr, language := .document .crowdstrike false
    patterns := [.of vendorPattern]
    profile :=
      { minVersion := "6.0.0", maxVersion := "7.99.0", dependencies := ["Falcon Insight"]
        capabilities := abilities true false
        optimizations := [("event_simpleName", "narrow by event_simpleName before CommandLine")] }
    style := .jsonKey }

def sentinelone : Platform :=
  { id := "sentinelone", family := .edr, language := .document .sentinelone false
    patterns := [.of vendorPattern]
    profile :=
      { minVersion := "21.0.0", maxVersion := "23.99.0", dependencies := ["Deep Visibility"]
        capabilities := abilities true true
        optimizations := [("agentId", "scope by agentId when known")] }
    style := .jsonKey }

def defender : Platform :=
  { id := "microsoft_defender", family := .edr, language := .document .defender false
    patterns := [.of vendorPattern]
    profile :=
      { minVersion := "1.0.0", maxVersion := "2.99.0", dependencies := ["Advanced Hunting"]
        capabilities := abilities true true
        optimizations := [("ActionType", "filter on ActionType first")] }
    style := .jsonKey }

def nsm : Platform :=
  { id := "nsm", family := .nsm, language := .signature .generic
    patterns := [.of "(?s)^\\s*\\S+\\s+\\S+\\s+\\S+\\s+\\S+\\s+(->|<>)\\s+\\S+\\s+\\S+\\s*\\("]
    profile := { minVersion := "1.0.0", maxVersion := "1.99.0"
                 capabilities := abilities false false }
    style := .hash }

def snort : Platform :=
  { id := "snort", family := .nsm, language := .signature .snort
    patterns := [.of "^\\s*(alert|log|pass|activate|dynamic|drop|reject|sdrop)\\s",
      .of "\\(\\s*msg\\s*:\\s*\"[^\"]+\"\\s*;"]
    profile :=
      { minVersion := "3.0.0", maxVersion := "3.99.0", dependencies := ["pcre"]
        capabilities := abilities false false
        optimizations := [("fast_pattern", "anchor the longest content")] }
    style := .hash }

def suricata : Platform :=
  { id := "suricata", family := .nsm, language := .signature .suricata
    patterns := [
      .of ("^\\s*(alert|drop|pass|reject|rejectsrc|rejectdst|rejectboth)\\s+" ++
        "(tcp|udp|ip|icmp|http|http2|dns|tls|ssh|smtp|ftp|smb|dhcp)\\s+"),
      .of "msg\\s*:\\s*\"[^\"]+\"\\s*;"]
    profile :=
      { minVersion := "6.0.0", maxVersion := "7.99.0", dependencies := ["pcre", "sticky-buffers"]
        capabilities := abilities false false
        optimizations := [("fast_pattern", "anchor the longest content"),
          ("startswith", "prefer startswith over anchored pcre")] }
    style := .hash }

def zeek : Platform :=
  { id := "zeek", family := .nsm, language := .zeek
    patterns := [.of "(?m)^\\s*event\\s+\\w+\\s*\\(", .of "NOTICE\\s*\\(\\s*\\["]
    profile :=
      { minVersion := "4.0.0", maxVersion := "6.99.0", dependencies := ["base/frameworks/notice"]
        capabilities := abilities false false
        optimizations := [("event", "handle the narrowest protocol event")] }
    style := .hash }

/-- The platforms that are built in. -/
def builtIn : List Platform :=
  [siem, splunk, qradar, edr, crowdstrike, sentinelone, defender, nsm, snort, suricata, zeek]

end Platform

end RuleExchange
