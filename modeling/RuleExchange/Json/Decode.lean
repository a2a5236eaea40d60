import RuleExchange.Json.Source
import RuleExchange.Json.Writer
import RuleExchange.Text.Literal

/-! Reading typed data out of JSON trees. A decoder walks a tree in the order of the
text and stops at the first fault: the text is malformed, or it is sound but does not
fit, with a sentence that says how. Records may be written as objects or as arrays of
their fields in declared order. -/

namespace RuleExchange.Json

inductive Misfit where
  /-- The text is not JSON up to this point. -/
  | malformed
  /-- The text is JSON and does not have the wanted form. -/
  | unfit (message : String)
  deriving DecidableEq, Repr

/-- Whether a tree was read from a text or taken from a value already held. -/
inductive Origin where
  | text
  | held
  /-- From a form in which items beyond those asked for are passed over. -/
  | lenient
  deriving DecidableEq

/-- How a tree is read as data. -/
abbrev Decoder (α : Type) := Origin → Source → Except Misfit α

def describe : Source → Option String
  | .null => some "null"
  | .bool b => some ("boolean `" ++ (if b then "true" else "false") ++ "`")
  | .num (.whole n) => some ("integer `" ++ toString n ++ "`")
  | .num (.real x) => some ("floating point `" ++ Decimal.settings.write x ++ "`")
  | .str s => some ("string " ++ Text.Literal.showText s)
  | .arr _ => some "sequence"
  | .obj _ => some "map"
  | .valueless => none
  | .broken => none

def wrongType {α : Type} (v : Source) (expected : String) : Except Misfit α :=
  match describe v with
  | some d => .error (.unfit ("invalid type: " ++ d ++ ", expected " ++ expected))
  | none => .error .malformed

namespace Decode

def string : Decoder String
  | _, .str s => .ok s
  | _, v => wrongType v "a string"

def bool : Decoder Bool
  | _, .bool b => .ok b
  | _, v => wrongType v "a boolean"

/-- A whole number between bounds; `kind` is its name in messages. -/
def integer (kind : String) (lo hi : Int) : Decoder Int
  | _, .num (.whole n) =>
    if lo ≤ n ∧ n ≤ hi then .ok n
    else .error (.unfit ("invalid value: integer `" ++ toString n ++ "`, expected " ++ kind))
  | _, v => wrongType v kind

def natural (kind : String) (bits : Nat) : Decoder Nat := fun o v =>
  (integer kind 0 (Nat.pow 2 bits - 1 : Nat) o v).map Int.toNat

def word8 : Decoder Nat := natural "u8" 8

def word32 : Decoder Nat := natural "u32" 32

def word64 : Decoder Nat := natural "u64" 64

def float : Decoder Float
  | _, .num (.real x) => .ok x
  | _, .num (.whole n) => .ok (Float.ofInt n)
  | _, v => wrongType v "f64"

/-- Absent where the tree is `null`. -/
def option {α : Type} (d : Decoder α) : Decoder (Option α)
  | _, .null => .ok none
  | o, v => (d o v).map some

/-- A value nobody asks for must still be well formed. -/
def skip (v : Source) : Except Misfit Unit := if v.isBroken then .error .malformed else .ok ()

def eachItem {α : Type} (d : Decoder α) (o : Origin) : List Source → Except Misfit (List α)
  | [] => .ok []
  | v :: vs => do
    let a ← d o v
    let as ← eachItem d o vs
    return a :: as

def list {α : Type} (d : Decoder α) : Decoder (List α)
  | o, .arr items => eachItem d o items
  | _, v => wrongType v "a sequence"

def eachMember {α : Type} (d : Decoder α) (o : Origin) :
    List (Option String × Source) → Except Misfit (List (String × α))
  | [] => .ok []
  | (none, _) :: _ => .error .malformed
  | (some k, v) :: rest => do
    let a ← d o v
    let as ← eachMember d o rest
    return (k, a) :: as

/-- A table of named entries, ordered by name, the last entry of each name kept. -/
def table {α : Type} (d : Decoder α) : Decoder (List (String × α))
  | o, .obj members => (eachMember d o members).map sortMembers
  | _, v => wrongType v "a map"

/-- One of a list of names, written as a string or as an object with that single key. -/
def choice (names : List String) (other : Option String) : Decoder String := fun o v =>
  let known (s : String) : Except Misfit String :=
    if names.contains s then .ok s
    else match other with
      | some w => .ok w
      | none => .error (.unfit ("unknown variant `" ++ s ++ "`, expected one of " ++
          Text.Literal.commaList (names.map fun n => "`" ++ n ++ "`")))
  match v with
  | .str s => known s
  | .obj [(some k, .null)] => known k
  | .obj _ => .error (.unfit "invalid value: map, expected map with a single key")
  | _ =>
    match o with
    | .text => .error .malformed
    | _ => wrongType v "string or map"

/-! ### Records -/

/-- What happens when a field is left out. -/
inductive Presence where
  | required
  /-- May be left out of an object, not of an array. -/
  | optional
  | defaulted
  deriving DecidableEq

structure Shape where
  name : String
  fields : List (String × Presence)
  /-- Whether a key that is no field is an error. -/
  closed : Bool := false

/-- The fields that were given, with their trees. -/
abbrev Found := List (String × Source)

def Shape.isField (shape : Shape) (key : String) : Bool := shape.fields.any (·.1 == key)

def fromMembers (shape : Shape) (check : String → Source → Except Misfit Unit) :
    Found → List (Option String × Source) → Except Misfit Found
  | found, [] => .ok found
  | _, (none, _) :: _ => .error .malformed
  | found, (some k, v) :: rest => do
    if shape.isField k then
      if found.any (·.1 == k) then .error (.unfit ("duplicate field `" ++ k ++ "`"))
      else
        check k v
        fromMembers shape check (found ++ [(k, v)]) rest
    else if shape.closed then .error (.unfit ("unknown field `" ++ k ++ "`"))
    else
      skip v
      fromMembers shape check found rest

def fromItems (check : String → Source → Except Misfit Unit) :
    List (String × Presence) → List Source → Except Misfit Found
  | (name, _) :: fields, v :: vs => do
    check name v
    let found ← fromItems check fields vs
    return (name, v) :: found
  | _, _ => .ok []

def missing (shape : Shape) (found : Found) : Option String :=
  (shape.fields.find? fun (n, p) => p = .required && !found.any (·.1 == n)).map (·.1)

/-- The fields of a record, each checked where it stands. -/
def record (shape : Shape) (check : String → Source → Except Misfit Unit) : Decoder Found
  | _, .obj members => do
    let found ← fromMembers shape check [] members
    match missing shape found with
    | some n => .error (.unfit ("missing field `" ++ n ++ "`"))
    | none => .ok found
  | o, .arr items => do
    let found ← fromItems check shape.fields items
    let size := shape.fields.length
    if items.length < size then
      if (shape.fields.drop items.length).all (·.2 = .defaulted) then .ok found
      else .error (.unfit ("invalid length " ++ toString items.length ++ ", expected struct " ++
        shape.name ++ " with " ++ toString size ++ " elements"))
    else if size < items.length then
      match o with
      | .text => .error .malformed
      | .held => .error (.unfit ("invalid length " ++ toString items.length ++
          ", expected fewer elements in array"))
      | .lenient => .ok found
    else .ok found
  | _, v => wrongType v ("struct " ++ shape.name)

def ignore {α : Type} (r : Except Misfit α) : Except Misfit Unit := r.map fun _ => ()

/-- A field's value, or the default where the field is left out. -/
def field {α : Type} (d : Decoder α) (o : Origin) (found : Found) (name : String) (default : α) :
    Except Misfit α :=
  match lookup name found with
  | some v => d o v
  | none => .ok default

end Decode

/-- Reads a whole text; only blanks may follow the value. -/
def decodeText {α : Type} (d : Decoder α) (s : List Char) : Except Misfit α := do
  let (tree, ended) := Source.ofText s
  let a ← d .text tree
  if ended then .ok a else .error .malformed

def decodeValue {α : Type} (d : Decoder α) (v : Value) : Except Misfit α := d .held (.ofValue v)

end RuleExchange.Json
