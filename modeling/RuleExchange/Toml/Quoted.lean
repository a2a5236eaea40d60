import RuleExchange.Decimal.Read
import RuleExchange.Toml.Scalar

/-! Strings and keys of TOML. Strings in double quotes have escapes, strings in single
quotes have none; three quotes enclose strings of several lines. -/

namespace RuleExchange.Toml

def isSpace (c : Char) : Bool := c == ' ' || c == '\t'

/-- Characters that may stand in a string or a comment as they are. -/
def isPlain (c : Char) : Bool := c == '\t' || (' ' ≤ c && c.toNat ≠ 0x7F)

/-- The character of a number in hexadecimal, if there is one. -/
def unicode? (digits : List Char) : Option Char :=
  let n := baseValue 16 digits
  if digits.all isHex && (n < 0xD800 || (0xE000 ≤ n && n < 0x110000)) then some (Char.ofNat n)
  else none

/-- An escaped character given by `width` digits. -/
def coded? (width : Nat) (s : List Char) : Option (Char × List Char) :=
  let ds := s.take width
  if ds.length = width then (unicode? ds).map fun c => (c, s.drop width) else none

/-- What stands after a backslash. -/
def escape? (s : List Char) : Option (Char × List Char) :=
  match s with
  | 'b' :: r => some (Char.ofNat 8, r)
  | 't' :: r => some ('\t', r)
  | 'n' :: r => some ('\n', r)
  | 'f' :: r => some (Char.ofNat 12, r)
  | 'r' :: r => some ('\r', r)
  | 'e' :: r => some (Char.ofNat 27, r)
  | '"' :: r => some ('"', r)
  | '\\' :: r => some ('\\', r)
  | 'x' :: r => coded? 2 r
  | 'u' :: r => coded? 4 r
  | 'U' :: r => coded? 8 r
  | _ => none

/-- The rest of a string in double quotes, after the opening one. -/
def basic? : Nat → List Char → List Char → Option (List Char × List Char)
  | 0, _, _ => none
  | fuel + 1, acc, s =>
    match s with
    | [] => none
    | '"' :: rest => some (acc.reverse, rest)
    | '\\' :: rest =>
      match escape? rest with
      | some (c, rest) => basic? fuel (c :: acc) rest
      | none => none
    | c :: rest => if isPlain c then basic? fuel (c :: acc) rest else none

/-- The rest of a string in single quotes, after the opening one. -/
def literal? (s : List Char) : Option (List Char × List Char) :=
  let text := s.takeWhile fun c => c ≠ '\'' && isPlain c
  match s.drop text.length with
  | '\'' :: rest => some (text, rest)
  | _ => none

/-- A line break at the start of a text, and what follows it. -/
def lineBreak? : List Char → Option (List Char)
  | '\n' :: rest => some rest
  | '\r' :: '\n' :: rest => some rest
  | _ => none

/-- The text after a backslash at the end of a line: blanks and line breaks are passed over. -/
def afterContinuation? (s : List Char) : Option (List Char) :=
  (lineBreak? (s.dropWhile isSpace)).map fun rest =>
    rest.dropWhile fun c => isSpace c || c == '\n' || c == '\r'

/-- Up to five quotes may stand at the end of a string of several lines; the last three close
it. -/
def closing (quote : Char) (acc s : List Char) : Option (List Char × List Char) :=
  let n := (s.takeWhile (· == quote)).length
  if n < 3 ∨ 5 < n then none
  else some ((List.replicate (n - 3) quote ++ acc).reverse, s.drop n)

/-- The rest of a string of several lines; `escapes` tells whether a backslash is special. -/
def multiline? (quote : Char) (escapes : Bool) :
    Nat → List Char → List Char → Option (List Char × List Char)
  | 0, _, _ => none
  | fuel + 1, acc, s =>
    match s with
    | [] => none
    | c :: rest =>
      if c = quote ∧ (rest.take 2).length = 2 ∧ (rest.take 2).all (· == quote) then
        closing quote acc s
      else if c = '\\' && escapes then
        match escape? rest with
        | some (d, rest) => multiline? quote escapes fuel (d :: acc) rest
        | none =>
          match afterContinuation? rest with
          | some rest => multiline? quote escapes fuel acc rest
          | none => none
      else match lineBreak? s with
        | some rest => multiline? quote escapes fuel ('\n' :: acc) rest
        | none => if isPlain c then multiline? quote escapes fuel (c :: acc) rest else none

/-- A line break right after the opening quotes does not count. -/
def afterOpening (s : List Char) : List Char := (lineBreak? s).getD s

/-- A string of any kind at the start of a text. -/
def string? (s : List Char) : Option (List Char × List Char) :=
  let fuel := s.length + 1
  match s with
  | '"' :: '"' :: '"' :: rest => multiline? '"' true fuel [] (afterOpening rest)
  | '\'' :: '\'' :: '\'' :: rest => multiline? '\'' false fuel [] (afterOpening rest)
  | '"' :: rest => basic? fuel [] rest
  | '\'' :: rest => literal? rest
  | _ => none

def isBareChar (c : Char) : Bool := c.isAlphanum || c == '_' || c == '-'

/-- One part of a key. -/
def keyPart? (s : List Char) : Option (String × List Char) :=
  match s with
  | '"' :: rest => (basic? (rest.length + 1) [] rest).map fun (k, r) => (String.ofList k, r)
  | '\'' :: rest => (literal? rest).map fun (k, r) => (String.ofList k, r)
  | _ =>
    let k := s.takeWhile isBareChar
    if k.isEmpty then none else some (String.ofList k, s.drop k.length)

/-- A key of parts with dots between them, blanks around the dots allowed; blanks after it are
passed over. -/
def key? : Nat → List Char → Option (List String × List Char)
  | 0, _ => none
  | fuel + 1, s =>
    match keyPart? (s.dropWhile isSpace) with
    | none => none
    | some (k, rest) =>
      match rest.dropWhile isSpace with
      | '.' :: more => (key? fuel more).map fun (ks, r) => (k :: ks, r)
      | rest => some ([k], rest)

end RuleExchange.Toml
