/-! JSON values. Numbers are whole or binary doubles; an object is the list of its
members in the order in which they are written. Where a text may repeat a key or
gives keys in any order, `Value.sorted` keeps the last member of each key and
orders the members by key. -/

namespace RuleExchange.Json

inductive Number where
  | whole (n : Int)
  | real (x : Float)

inductive Value where
  | null
  | bool (b : Bool)
  | num (n : Number)
  | str (s : String)
  | arr (items : List Value)
  | obj (members : List (String × Value))

instance : Inhabited Value := ⟨.null⟩

namespace Value

def int (n : Int) : Value := .num (.whole n)

def nat (n : Nat) : Value := .num (.whole n)

def float (x : Float) : Value := .num (.real x)

def strings (xs : List String) : Value := .arr (xs.map .str)

/-- The value or `null`. -/
def optional {α : Type} (f : α → Value) : Option α → Value
  | none => .null
  | some a => f a

end Value

/-- Puts a member at the place of its key, replacing an earlier member of that key. -/
def insertMember {α : Type} (key : String) (value : α) : List (String × α) → List (String × α)
  | [] => [(key, value)]
  | (k, v) :: rest =>
    if key = k then (key, value) :: rest
    else if key < k then (key, value) :: (k, v) :: rest
    else (k, v) :: insertMember key value rest

def lookup {α : Type} (key : String) (members : List (String × α)) : Option α :=
  (members.find? (·.1 == key)).map (·.2)

/-- Members ordered by key, the last one of each key kept. -/
def sortMembers {α : Type} (members : List (String × α)) : List (String × α) :=
  members.foldl (fun acc (k, v) => insertMember k v acc) []

mutual

/-- Every object ordered by key, at every level. -/
def Value.sorted : Value → Value
  | .arr items => .arr (sortedItems items)
  | .obj members => .obj (sortMembers (sortedMembers members))
  | v => v

def sortedItems : List Value → List Value
  | [] => []
  | v :: vs => v.sorted :: sortedItems vs

def sortedMembers : List (String × Value) → List (String × Value)
  | [] => []
  | (k, v) :: rest => (k, v.sorted) :: sortedMembers rest

end

namespace Value

def get? (v : Value) (key : String) : Option Value :=
  match v with
  | .obj members => lookup key members
  | _ => none

def str? : Value → Option String
  | .str s => some s
  | _ => none

def nat? (v : Value) : Option Nat :=
  match v with
  | .num (.whole n) => if 0 ≤ n then some n.toNat else none
  | _ => none

def bool? : Value → Option Bool
  | .bool b => some b
  | _ => none

def float? : Value → Option Float
  | .num (.real x) => some x
  | .num (.whole n) => some (Float.ofInt n)
  | _ => none

def items? : Value → Option (List Value)
  | .arr xs => some xs
  | _ => none

def members? : Value → Option (List (String × Value))
  | .obj ms => some ms
  | _ => none

end Value

end RuleExchange.Json
