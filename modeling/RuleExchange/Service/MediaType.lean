import RuleExchange.Text.Part

/-!
Media types as far as a service has to tell JSON bodies from others: a type, a
subtype with an optional suffix after its last plus sign, and parameters.
-/

namespace RuleExchange.Service

structure MediaType where
  type : String
  subtype : String
  suffix : Option String
  deriving DecidableEq, Repr

namespace MediaType

/-- The characters of names. -/
def isToken (c : Char) : Bool :=
  c.isAlphanum || "!#$%&'*+-.^_|~".toList.contains c || c == '\x60'

/-- The rest of a quoted value of printable characters, up to its closing quote; the value is not
empty. -/
def quotedRest : Bool → List Char → Option (List Char)
  | _, [] => none
  | started, c :: cs =>
    if c = '"' && started then some cs
    else if c.toNat < 32 || 127 ≤ c.toNat then none
    else quotedRest true cs

/-- What may stand between a quoted value and the next parameter. -/
def skipToNext (s : List Char) : Option (List Char) :=
  match s.dropWhile (· == ' ') with
  | [] => some []
  | ';' :: rest => some rest
  | _ => none

/-- Whether the text after a semicolon is a list of parameters. -/
def areParameters : Nat → List Char → Bool
  | 0, _ => false
  | fuel + 1, s =>
    match s.dropWhile (· == ' ') with
    | [] => true
    | s =>
      let name := s.takeWhile isToken
      match s.drop name.length with
      | '=' :: value =>
        if name.isEmpty then false
        else match value with
          | '"' :: rest =>
            match quotedRest false rest >>= skipToNext with
            | some rest => areParameters fuel rest
            | none => false
          | _ =>
            let word := value.takeWhile isToken
            match value.drop word.length with
            | [] => true
            | ';' :: rest => !word.isEmpty && areParameters fuel rest
            | _ => false
      | _ => false

/-- Cuts a subtype at its last plus sign; one in front of everything is no such sign. -/
def splitSuffix (s : List Char) : List Char × Option (List Char) :=
  let tail := s.reverse.takeWhile (· != '+')
  if tail.length + 1 < s.length then
    (s.take (s.length - tail.length - 1), some tail.reverse)
  else (s, none)

/-- Reads a media type; letters count as small. -/
def ofText? (s : List Char) : Option MediaType := do
  let type := s.takeWhile isToken
  let rest ← match s.drop type.length with
    | '/' :: rest => if type.isEmpty then none else some rest
    | _ => none
  let subtype := rest.takeWhile isToken
  let rest := rest.drop subtype.length
  let (name, suffix) := splitSuffix (Text.asciiLower subtype)
  let found : MediaType :=
    ⟨String.ofList (Text.asciiLower type), String.ofList name, suffix.map String.ofList⟩
  match rest with
  | [] => some found
  | ';' :: more =>
    if !subtype.isEmpty && areParameters (more.length + 1) more then some found else none
  | _ => none

def isJson (m : MediaType) : Bool :=
  m.type = "application" && (m.subtype = "json" || m.suffix = some "json")

end MediaType

end RuleExchange.Service
