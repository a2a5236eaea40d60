/-! Work shared by callers with the same key. The first caller for a key leads and does
the work; callers that join while it is under way follow and receive what the leader
publishes. A leader that leaves without publishing releases its key and its followers
receive nothing. -/

namespace RuleExchange

/-- A leader's claim on a key. Tickets tell the leaders of one key apart. -/
structure Leader (κ : Type) where
  key : κ
  ticket : Nat
  deriving DecidableEq, Repr

inductive Role (κ : Type) where
  | leader (l : Leader κ)
  /-- Follows the leader with this ticket. -/
  | follower (ticket : Nat)
  deriving DecidableEq, Repr

structure Flights (κ α : Type) where
  /-- The keys under way with the tickets of their leaders. -/
  underWay : List (κ × Nat) := []
  /-- What the leaders that are done have left: a published value or nothing. -/
  landed : List (Nat × Option α) := []
  nextTicket : Nat := 0

namespace Flights

variable {κ α : Type}

def size (f : Flights κ α) : Nat := f.underWay.length

/-- What a leader has left, once it is done. -/
def result? (f : Flights κ α) (ticket : Nat) : Option (Option α) :=
  (f.landed.find? (·.1 = ticket)).map (·.2)

variable [DecidableEq κ]

def join (f : Flights κ α) (k : κ) : Flights κ α × Role κ :=
  match f.underWay.find? (·.1 = k) with
  | some (_, ticket) => (f, .follower ticket)
  | none =>
    ({ f with underWay := f.underWay ++ [(k, f.nextTicket)], nextTicket := f.nextTicket + 1 },
      .leader ⟨k, f.nextTicket⟩)

def forget (f : Flights κ α) (k : κ) : Flights κ α :=
  { f with underWay := f.underWay.filter (·.1 ≠ k) }

def land (f : Flights κ α) (l : Leader κ) (v : Option α) : Flights κ α :=
  { f.forget l.key with landed := f.landed ++ [(l.ticket, v)] }

/-- The leader releases its key and leaves a value. -/
def publish (f : Flights κ α) (l : Leader κ) (v : α) : Flights κ α := f.land l (some v)

/-- The leader releases its key and leaves nothing. -/
def abandon (f : Flights κ α) (l : Leader κ) : Flights κ α := f.land l none

end Flights

end RuleExchange
