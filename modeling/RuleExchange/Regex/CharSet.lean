import RuleExchange.Text.Blank
import RuleExchange.Text.Fold
import RuleExchange.Text.Word

/-! Sets of characters, as regular expressions name them. -/

namespace RuleExchange.Regex

inductive CharSet where
  | none
  | all
  | range (lo hi : Char)
  | word
  | digit
  | blank
  | union (a b : CharSet)
  | inter (a b : CharSet)
  | compl (a : CharSet)
  /-- All characters that are in the set when case is ignored. -/
  | fold (a : CharSet)
  deriving DecidableEq, Repr

namespace CharSet

def single (c : Char) : CharSet := range c c

def newline : CharSet := single '\n'

def diff (a b : CharSet) : CharSet := inter a (compl b)

def symmDiff (a b : CharSet) : CharSet := union (diff a b) (diff b a)

def has : CharSet → Char → Bool
  | none, _ => false
  | all, _ => true
  | range lo hi, c => lo ≤ c && c ≤ hi
  | word, c => Text.isWord c
  | digit, c => Text.isDecimal c
  | blank, c => Text.isBlank c
  | union a b, c => a.has c || b.has c
  | inter a b, c => a.has c && b.has c
  | compl a, c => !a.has c
  | fold a, c => (Text.foldCycle c).any a.has

end CharSet

end RuleExchange.Regex
