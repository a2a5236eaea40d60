/-! A cache of bounded size. Entries leave in the order in which they came; a new value
for a key that is present takes the place of the old one. -/

namespace RuleExchange

structure Cache (κ α : Type) where
  capacity : Nat
  /-- Keys with their values, the one that came first in front. -/
  entries : List (κ × α) := []

namespace Cache

variable {κ α : Type}

/-- An empty cache; it has room for one entry at least. -/
def ofCapacity (n : Nat) : Cache κ α := { capacity := max n 1 }

def size (c : Cache κ α) : Nat := c.entries.length

variable [DecidableEq κ]

def get? (c : Cache κ α) (k : κ) : Option α := (c.entries.find? (·.1 = k)).map (·.2)

def contains (c : Cache κ α) (k : κ) : Bool := c.entries.any (·.1 = k)

def insert (c : Cache κ α) (k : κ) (v : α) : Cache κ α :=
  if c.contains k then
    { c with entries := c.entries.map fun e => if e.1 = k then (k, v) else e }
  else
    let all := c.entries ++ [(k, v)]
    { c with entries := all.drop (all.length - c.capacity) }

end Cache

end RuleExchange
