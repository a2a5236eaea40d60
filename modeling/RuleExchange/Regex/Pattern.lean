import RuleExchange.Regex.CharSet

/-! Regular expressions and whether one occurs in a text. The search walks the text
once with the set of expressions that are still to be matched: each character replaces
an expression by its partial derivatives, and the search succeeds as soon as one of
them matches the empty text where it stands. -/

namespace RuleExchange.Regex

/-- Conditions on the place between two characters. -/
inductive Look where
  | textStart
  | textEnd
  | lineStart
  | lineEnd
  | wordBoundary
  | noWordBoundary
  | wordStart
  | wordEnd
  deriving DecidableEq, Repr

inductive Pattern where
  | empty
  | chars (set : CharSet)
  | look (l : Look)
  | seq (a b : Pattern)
  | alt (a b : Pattern)
  | star (a : Pattern)
  deriving DecidableEq, Repr

def isWordAt (c : Option Char) : Bool := (c.map Text.isWord).getD false

/-- Whether a condition holds between the characters before and after a place. -/
def Look.holds (before after : Option Char) : Look → Bool
  | textStart => before.isNone
  | textEnd => after.isNone
  | lineStart => before.isNone || before == some '\n'
  | lineEnd => after.isNone || after == some '\n'
  | wordBoundary => isWordAt before != isWordAt after
  | noWordBoundary => isWordAt before == isWordAt after
  | wordStart => !isWordAt before && isWordAt after
  | wordEnd => isWordAt before && !isWordAt after

namespace Pattern

/-- Matches the first expression, then the second; nothing is in front of the empty one. -/
def andThen : Pattern → Pattern → Pattern
  | empty, b => b
  | a, b => seq a b

/-- Whether the empty text at a place matches. -/
def nullable (before after : Option Char) : Pattern → Bool
  | empty => true
  | chars _ => false
  | look l => l.holds before after
  | seq a b => a.nullable before after && b.nullable before after
  | alt a b => a.nullable before after || b.nullable before after
  | star _ => true

/-- What is left to be matched after the character `c`, one expression for each way to match it. -/
def derive (before : Option Char) (c : Char) : Pattern → List Pattern
  | empty => []
  | chars s => if s.has c then [empty] else []
  | look _ => []
  | seq a b =>
    (a.derive before c).map (·.andThen b) ++
      (if a.nullable before (some c) then b.derive before c else [])
  | alt a b => a.derive before c ++ b.derive before c
  | star a => (a.derive before c).map (·.andThen (star a))

/-- Searches from a place on, with the expressions already begun. -/
def searchFrom (p : Pattern) (before : Option Char) (begun : List Pattern) : List Char → Bool
  | [] => (p :: begun).any (·.nullable before none)
  | c :: cs =>
    let states := p :: begun
    if states.any (·.nullable before (some c)) then true
    else p.searchFrom (some c) (states.flatMap (·.derive before c)).eraseDups cs

/-- Whether the expression matches some part of the text. -/
def occursIn (p : Pattern) (s : List Char) : Bool := p.searchFrom none [] s

/-- The number of steps an expression consists of. -/
def size : Pattern → Nat
  | empty => 1
  | chars _ => 1
  | look _ => 1
  | seq a b => a.size + b.size
  | alt a b => a.size + b.size + 1
  | star a => a.size + 1

/-- Exactly `n` copies. -/
def times (p : Pattern) : Nat → Pattern
  | 0 => empty
  | n + 1 => andThen p (p.times n)

/-- At most `n` copies. -/
def upTo (p : Pattern) : Nat → Pattern
  | 0 => empty
  | n + 1 => alt empty (andThen p (p.upTo n))

end Pattern

end RuleExchange.Regex
