import RuleExchange.Text.Part
import RuleExchange.Json.Decode

/-! Conditions on fields. A condition compares one field with one value by an
operator. Patterns with wildcards are normalised: wildcards only at the ends become
operators, wildcards inside stay as they are in an equality, written with the
neutral wildcard. -/

namespace RuleExchange

/-- The neutral wildcard. -/
def wildcard : Char := '*'

inductive Operator where
  | equals
  | notEquals
  | contains
  | startsWith
  | endsWith
  | regex
  deriving DecidableEq, Repr

namespace Operator

/-- Lower ranks are cheaper to evaluate first. -/
def rank : Operator → Nat
  | equals | notEquals => 0
  | startsWith | endsWith => 1
  | contains => 2
  | regex => 3

/-- The word of the neutral query language. -/
def keyword : Operator → String
  | equals => "="
  | notEquals => "!="
  | contains => "CONTAINS"
  | startsWith => "STARTSWITH"
  | endsWith => "ENDSWITH"
  | regex => "MATCHES"

def name : Operator → String
  | equals => "equals"
  | notEquals => "not_equals"
  | contains => "contains"
  | startsWith => "starts_with"
  | endsWith => "ends_with"
  | regex => "regex"

def all : List Operator := [equals, notEquals, contains, startsWith, endsWith, regex]

def ofName? (s : String) : Option Operator := all.find? fun op => op.name == s

def decoder : Json.Decoder Operator := fun o v => do
  let s ← Json.Decode.choice (all.map name) none o v
  return (ofName? s).getD equals

end Operator

structure Condition where
  field : String
  operator : Operator
  value : String
  deriving DecidableEq, Repr

namespace Condition

def swapChar (a b : Char) (s : List Char) : List Char := s.map fun c => if c = a then b else c

/-- Operator and value of a pattern over the wildcard `w`. -/
def normalize (w : Char) (raw : List Char) : Operator × List Char :=
  if raw.all (· == w) then (.equals, [wildcard])
  else
    let inner := Text.dropEndWhile (· == w) (raw.dropWhile (· == w))
    if inner.contains w then (.equals, swapChar w wildcard raw)
    else
      match raw.head? == some w, raw.getLast? == some w with
      | true, true => (.contains, inner)
      | true, false => (.endsWith, inner)
      | false, true => (.startsWith, inner)
      | false, false => (.equals, inner)

/-- A pattern over the wildcard `w` as a condition. -/
def ofPattern (field : String) (raw : String) (w : Char) : Condition :=
  let (op, value) := normalize w raw.toList
  ⟨field, op, String.ofList value⟩

/-- A condition as a pattern over the wildcard `w`; a regular expression stays as it is. -/
def toPattern (c : Condition) (w : Char) : String :=
  let v := c.value.toList
  match c.operator with
  | .equals | .notEquals => String.ofList (swapChar wildcard w v)
  | .contains => String.ofList (w :: v ++ [w])
  | .startsWith => String.ofList (v ++ [w])
  | .endsWith => String.ofList (w :: v)
  | .regex => c.value

/-- Whether every value satisfies the condition's pattern. -/
def isMatchAll (c : Condition) : Bool :=
  match c.operator with
  | .equals | .notEquals => !c.value.isEmpty && c.value.toList.all (· == wildcard)
  | .contains | .startsWith | .endsWith => c.value.isEmpty
  | .regex => ["", ".*", ".+", "^.*$", ".*?"].contains c.value

/-- An equality whose value has a wildcard and more. -/
def hasInnerWildcard (c : Condition) : Bool :=
  (c.operator = .equals || c.operator = .notEquals) && c.value.toList.contains wildcard &&
    !c.isMatchAll

def toJson (c : Condition) : Json.Value :=
  .obj [("field", .str c.field), ("operator", .str c.operator.name), ("value", .str c.value)]

def shape (name : String) : Json.Decode.Shape :=
  { name, fields := [("field", .required), ("operator", .required), ("value", .required)] }

/-- Reads a condition; `name` is its name in messages. -/
def decoder (name : String) : Json.Decoder Condition := fun o v => do
  let check (key : String) (x : Json.Source) : Except Json.Misfit Unit :=
    if key = "operator" then Json.Decode.ignore (Operator.decoder o x)
    else Json.Decode.ignore (Json.Decode.string o x)
  let found ← Json.Decode.record (shape name) check o v
  let field ← Json.Decode.field Json.Decode.string o found "field" ""
  let operator ← Json.Decode.field Operator.decoder o found "operator" .equals
  let value ← Json.Decode.field Json.Decode.string o found "value" ""
  return ⟨field, operator, value⟩

end Condition

end RuleExchange
