import RuleExchange.Digest
import RuleExchange.Engine.Options
import RuleExchange.Failure

/-! Requests for an exchange and their fingerprints. A fingerprint is the digest of an
encoding of what decides the rule that is written: the content, both platforms, the
source's version, the level, two switches and the target's version. Every text is led
by its length, so that requests that differ in one of these have different encodings.
The waiting time and the number of retries do not enter. -/

namespace RuleExchange

structure Request where
  content : String
  source : String
  target : String
  options : Options := {}
  deriving DecidableEq, Repr

namespace Request

def maxLevel : Nat := 3

def needText (field s : String) : Except Failure Unit :=
  if Text.isBlankString s then .error (.invalidInput field "must not be empty") else .ok ()

/-- What is refused before any work: blank texts, no time at all, a level that does not exist. -/
def check (r : Request) : Except Failure Unit := do
  needText "content" r.content
  needText "source_platform" r.source
  needText "target_platform" r.target
  if r.options.timeoutMs = 0 then .error (.invalidInput "timeout" "must be greater than 0")
  else if maxLevel < r.options.level then
    .error (.invalidInput "optimization_level" ("must be within 0..=" ++ toString maxLevel))
  else .ok ()

end Request

/-- The digest that identifies a request. -/
structure Fingerprint where
  octets : List UInt8
  deriving DecidableEq, Repr

namespace Fingerprint

/-- A text led by its length. -/
def textField (s : String) : List UInt8 :=
  let bytes := Digest.utf8 s
  Digest.lengthOctets bytes.length ++ bytes

def optionalField : Option String → List UInt8
  | some s => 1 :: textField s
  | none => [0]

/-- The form of a platform's name that enters the fingerprint. -/
def platformName (s : String) : String := String.ofList (Text.asciiLower (Text.trim s.toList))

def flagOctet (b : Bool) : UInt8 := if b then 1 else 0

/-- The octets that are digested. -/
def encode (r : Request) : List UInt8 :=
  textField r.content ++ textField (platformName r.source) ++ textField (platformName r.target) ++
    optionalField r.options.sourceVersion ++
    [UInt8.ofNat r.options.level, flagOctet r.options.preserveComments,
      flagOctet r.options.strict] ++
    optionalField r.options.targetVersion

def ofRequest (r : Request) : Fingerprint := ⟨Digest.sha256 (encode r)⟩

def hex (f : Fingerprint) : String := Digest.hex f.octets

/-- The first twelve digits. -/
def short (f : Fingerprint) : String := String.ofList (f.hex.toList.take 12)

def debug (f : Fingerprint) : String := "Fingerprint(" ++ f.short ++ ")"

end Fingerprint

end RuleExchange
