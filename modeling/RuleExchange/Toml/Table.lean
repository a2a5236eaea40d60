import RuleExchange.Json.Value

/-! Tables under construction. A table is opened by its own header, comes about on the
way to another one, or is made by a dotted key; each may be extended in its own ways
only. Values are closed. -/

namespace RuleExchange.Toml

inductive Origin where
  /-- By a header of its own. -/
  | header
  /-- On the way to the table of a header. -/
  | passing
  /-- By a dotted key. -/
  | dotted
  deriving DecidableEq, Repr

inductive Node where
  | value (v : Json.Value)
  | table (origin : Origin) (members : List (String × Node))
  /-- A list of tables, the latest last. -/
  | tables (items : List (List (String × Node)))

abbrev Members := List (String × Node)

def find? (k : String) (ms : Members) : Option Node := (ms.find? (·.1 = k)).map (·.2)

/-- Puts a node under its key, in its old place or at the end. -/
def put (k : String) (n : Node) (ms : Members) : Members :=
  if ms.any (·.1 = k) then ms.map fun m => if m.1 = k then (k, n) else m
  else ms ++ [(k, n)]

/-- Changes the last of a list of tables. -/
def updateLast (f : Members → Option Members) :
    List Members → Option (List Members)
  | [] => none
  | [ms] => (f ms).map fun ms => [ms]
  | ms :: rest => (updateLast f rest).map (ms :: ·)

/-- Changes the table at the end of a path of headers. -/
def within (f : Members → Option Members) : List String → Members → Option Members
  | [], ms => f ms
  | k :: ks, ms =>
    match find? k ms with
    | none => (within f ks []).map fun inner => put k (.table .passing inner) ms
    | some (.table o inner) => (within f ks inner).map fun inner => put k (.table o inner) ms
    | some (.tables items) =>
      (updateLast (within f ks) items).map fun items => put k (.tables items) ms
    | some (.value _) => none

/-- Opens the table of a header. -/
def openTable (path : List String) (k : String) (root : Members) : Option Members :=
  within (fun ms =>
    match find? k ms with
    | none => some (put k (.table .header []) ms)
    | some (.table .passing inner) => some (put k (.table .header inner) ms)
    | some _ => none) path root

/-- Opens one more table of a list. -/
def openItem (path : List String) (k : String) (root : Members) : Option Members :=
  within (fun ms =>
    match find? k ms with
    | none => some (put k (.tables [[]]) ms)
    | some (.tables items) => some (put k (.tables (items ++ [[]])) ms)
    | some _ => none) path root

/-- Sets a value under a dotted key. The tables on the way must not have headers of their own,
and the last of them must come from a dotted key. -/
def setDotted (v : Json.Value) : List String → Bool → Members → Option Members
  | [], _, _ => none
  | [k], allowed, ms =>
    if allowed && (find? k ms).isNone then some (put k (.value v) ms) else none
  | k :: ks, _, ms =>
    match find? k ms with
    | none => (setDotted v ks true []).map fun inner => put k (.table .dotted inner) ms
    | some (.table .header _) => none
    | some (.table o inner) =>
      (setDotted v ks (o = .dotted) inner).map fun inner => put k (.table o inner) ms
    | some _ => none

/-- Sets a value under a key of the table of the last header. -/
def setKey (path key : List String) (v : Json.Value) (root : Members) : Option Members :=
  within (setDotted v key true) path root

mutual

def Node.toJson : Node → Json.Value
  | .value v => v
  | .table _ ms => .obj (membersJson ms)
  | .tables items => .arr (itemsJson items)

def membersJson : List (String × Node) → List (String × Json.Value)
  | [] => []
  | (k, n) :: rest => (k, n.toJson) :: membersJson rest

def itemsJson : List (List (String × Node)) → List Json.Value
  | [] => []
  | ms :: rest => .obj (membersJson ms) :: itemsJson rest

end

end RuleExchange.Toml
