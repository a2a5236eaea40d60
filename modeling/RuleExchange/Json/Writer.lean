import RuleExchange.Json.Value
import RuleExchange.Decimal.Layout

/-! Writing JSON. The compact form has no blanks; the pretty form puts each item
and member on its own line, indented by two spaces, and writes an empty array or
object without a line break. Only the quote, the backslash and control characters
are escaped. -/

namespace RuleExchange.Json

def hexDigit (n : Nat) : Char := if n < 10 then Char.ofNat (48 + n) else Char.ofNat (87 + n)

/-- The written form of one character inside a string. -/
def escapeChar (c : Char) : List Char :=
  if c = '"' then ['\\', '"']
  else if c = '\\' then ['\\', '\\']
  else if c = '\n' then ['\\', 'n']
  else if c = '\r' then ['\\', 'r']
  else if c = '\t' then ['\\', 't']
  else if c.toNat = 8 then ['\\', 'b']
  else if c.toNat = 12 then ['\\', 'f']
  else if c.toNat < 32 then ['\\', 'u', '0', '0', hexDigit (c.toNat / 16), hexDigit (c.toNat % 16)]
  else [c]

def stringText (s : List Char) : List Char := '"' :: s.flatMap escapeChar ++ ['"']

def floatText (x : Float) : List Char :=
  if x.isFinite then (Decimal.json.write x).toList else "null".toList

def intText (n : Int) : List Char :=
  if n < 0 then '-' :: Nat.toDigits 10 n.natAbs else Nat.toDigits 10 n.natAbs

def numberText : Number → List Char
  | .whole n => intText n
  | .real x => floatText x

def boolText (b : Bool) : List Char := if b then "true".toList else "false".toList

def openBrace : Char := '\x7b'

def closeBrace : Char := '\x7d'

mutual

/-- The compact form. -/
def Value.compact : Value → List Char
  | .null => "null".toList
  | .bool b => boolText b
  | .num n => numberText n
  | .str s => stringText s.toList
  | .arr items => '[' :: compactItems items
  | .obj members => openBrace :: compactMembers members

/-- The items and the closing bracket. -/
def compactItems : List Value → List Char
  | [] => [']']
  | [v] => v.compact ++ [']']
  | v :: vs => v.compact ++ ',' :: compactItems vs

/-- The members and the closing brace. -/
def compactMembers : List (String × Value) → List Char
  | [] => [closeBrace]
  | [(k, v)] => stringText k.toList ++ ':' :: v.compact ++ [closeBrace]
  | (k, v) :: rest => stringText k.toList ++ ':' :: v.compact ++ ',' :: compactMembers rest

end

def lineBreak (depth : Nat) : List Char := '\n' :: List.replicate (2 * depth) ' '

mutual

/-- The pretty form at a depth of nesting. -/
def Value.prettyAt (depth : Nat) : Value → List Char
  | .null => "null".toList
  | .bool b => boolText b
  | .num n => numberText n
  | .str s => stringText s.toList
  | .arr [] => ['[', ']']
  | .arr (v :: vs) => '[' :: prettyItems depth (v :: vs)
  | .obj [] => [openBrace, closeBrace]
  | .obj (m :: ms) => openBrace :: prettyMembers depth (m :: ms)

def prettyItems (depth : Nat) : List Value → List Char
  | [] => lineBreak depth ++ [']']
  | [v] => lineBreak (depth + 1) ++ v.prettyAt (depth + 1) ++ lineBreak depth ++ [']']
  | v :: vs => lineBreak (depth + 1) ++ v.prettyAt (depth + 1) ++ ',' :: prettyItems depth vs

def prettyMembers (depth : Nat) : List (String × Value) → List Char
  | [] => lineBreak depth ++ [closeBrace]
  | [(k, v)] =>
    lineBreak (depth + 1) ++ stringText k.toList ++ ':' :: ' ' :: v.prettyAt (depth + 1) ++
      lineBreak depth ++ [closeBrace]
  | (k, v) :: rest =>
    lineBreak (depth + 1) ++ stringText k.toList ++ ':' :: ' ' :: v.prettyAt (depth + 1) ++
      ',' :: prettyMembers depth rest

end

def Value.compactString (v : Value) : String := String.ofList v.compact

def Value.prettyString (v : Value) : String := String.ofList (v.prettyAt 0)

end RuleExchange.Json
