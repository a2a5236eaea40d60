import RuleExchange.Text.Part

/-! Quoted text. Inside quotes a backslash and the quote itself are written with
a backslash before them; reading drops the first backslash of each such pair.
Splitting at a separator looks only outside quotes. -/

namespace RuleExchange.Text.Quoted

/-- Writes a backslash before each backslash and each `quote`. -/
def escape (quote : Char) : List Char → List Char
  | [] => []
  | c :: cs => if c = '\\' ∨ c = quote then '\\' :: c :: escape quote cs else c :: escape quote cs

/-- Takes the character after a backslash as it stands; a final lone backslash is dropped. -/
def unescape : List Char → List Char
  | [] => []
  | ['\\'] => []
  | '\\' :: c :: cs => c :: unescape cs
  | c :: cs => c :: unescape cs

def enclose (quote : Char) (s : List Char) : List Char := quote :: escape quote s ++ [quote]

def isQuote (c : Char) : Bool := c == '"' || c == '\''

/-- Walks the text with the open quote, whether the last character was an escaping backslash, and
the number of separator characters still to be passed over. -/
def splitFrom (sep : List Char) :
    Nat → Option Char → Bool → List Char → List Char → List (List Char)
  | _, _, _, part, [] => [part.reverse]
  | skip + 1, quote, escaped, part, _ :: cs => splitFrom sep skip quote escaped part cs
  | 0, quote, true, part, c :: cs => splitFrom sep 0 quote false (c :: part) cs
  | 0, some q, false, part, c :: cs =>
    if c = '\\' then splitFrom sep 0 (some q) true (c :: part) cs
    else if c = q then splitFrom sep 0 none false (c :: part) cs
    else splitFrom sep 0 (some q) false (c :: part) cs
  | 0, none, false, part, c :: cs =>
    if isQuote c then splitFrom sep 0 (some c) false (c :: part) cs
    else if sep.isPrefixOf (c :: cs) then
      part.reverse :: splitFrom sep (sep.length - 1) none false [] cs
    else splitFrom sep 0 none false (c :: part) cs

/-- The parts of a text between the occurrences of `sep` outside quotes. -/
def split (sep s : List Char) : List (List Char) := splitFrom sep 0 none false [] s

end RuleExchange.Text.Quoted
