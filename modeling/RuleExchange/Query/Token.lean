import RuleExchange.Query.Dialect

/-! Tokens of a filter: words, quoted texts and comparison signs. Inside quotes a
backslash escapes only the quote and itself, so that the backslashes of a regular
expression survive. Each token keeps the text from its start on. -/

namespace RuleExchange.Query

inductive Lexeme where
  | word (text : List Char)
  | quoted (value : List Char)
  | sign (text : List Char)
  deriving DecidableEq, Repr

structure Token where
  lexeme : Lexeme
  /-- The filter from the start of this token on. -/
  tail : List Char
  deriving DecidableEq, Repr

def isSignChar (c : Char) : Bool := c == '=' || c == '!' || c == '<' || c == '>'

def endsWord (c : Char) : Bool := Text.isBlank c || isSignChar c || c == '(' || c == ')'

/-- The value up to the closing quote, and what follows it. -/
def readQuoted (quote : Char) : List Char → Option (List Char × List Char)
  | [] => none
  | c :: cs =>
    if c = '\\' then
      match cs with
      | [] => none
      | n :: rest =>
        if n = quote ∨ n = '\\' then (readQuoted quote rest).map fun (v, t) => (n :: v, t)
        else (readQuoted quote (n :: rest)).map fun (v, t) => (c :: v, t)
    else if c = quote then some ([], cs)
    else (readQuoted quote cs).map fun (v, t) => (c :: v, t)

/-- A comparison sign takes a following equals sign; a less sign also a following greater sign. -/
def readSign (c : Char) : List Char → List Char × List Char
  | [] => ([c], [])
  | n :: rest => if n = '=' ∨ (c = '<' ∧ n = '>') then ([c, n], rest) else ([c], n :: rest)

/-- Reads tokens; `size` is the number of octets of the whole filter. -/
def tokenizeFrom (size : Nat) : Nat → List Char → Except Error (List Token)
  | 0, _ => .ok []
  | _ + 1, [] => .ok []
  | fuel + 1, c :: cs =>
    if Text.isBlank c then tokenizeFrom size fuel cs
    else if c = '"' ∨ c = '\'' then
      match readQuoted c cs with
      | none => .error (.unterminated (size - Text.octets (c :: cs)))
      | some (value, rest) => do
        let ts ← tokenizeFrom size fuel rest
        return ⟨.quoted value, c :: cs⟩ :: ts
    else if c = '(' ∨ c = ')' then .error .grouping
    else if isSignChar c then do
      let (sign, rest) := readSign c cs
      let ts ← tokenizeFrom size fuel rest
      return ⟨.sign sign, c :: cs⟩ :: ts
    else do
      let word := (c :: cs).takeWhile fun x => !endsWord x
      let ts ← tokenizeFrom size fuel ((c :: cs).dropWhile fun x => !endsWord x)
      return ⟨.word word, c :: cs⟩ :: ts

def tokenize (s : List Char) : Except Error (List Token) :=
  tokenizeFrom (Text.octets s) (s.length + 1) s

/-- The text of a word or a quoted value. -/
def Lexeme.value? : Lexeme → Option (List Char)
  | .word w => some w
  | .quoted v => some v
  | .sign _ => none

end RuleExchange.Query
