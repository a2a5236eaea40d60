import RuleExchange.Decimal.Layout
import RuleExchange.Json.Value

/-! Writing TOML documents: the scalars of a table first, then the tables inside it,
each under a header of its own. A table that holds nothing but tables has no header.
Strings are written in the plainest form that needs no escapes. -/

namespace RuleExchange.Toml

/-- What matters about a text when a form is chosen for it. -/
structure Shape where
  /-- Control characters other than tabs and line feeds. -/
  control : Bool
  backslash : Bool
  newline : Bool
  /-- The longest run of double quotes. -/
  doubles : Nat
  /-- The longest run of single quotes. -/
  singles : Nat
  deriving DecidableEq, Repr

def isControl (c : Char) : Bool := c < ' ' || c.toNat == 0x7F

/-- The longest run of a character; `run` is the length of the run before the text. -/
def longestRun (q : Char) : Nat → List Char → Nat
  | run, [] => run
  | run, c :: cs => if c = q then longestRun q (run + 1) cs else max run (longestRun q 0 cs)

def Shape.of (s : List Char) : Shape :=
  { control := s.any fun c => isControl c && c ≠ '\t' && c ≠ '\n'
    backslash := s.any (· == '\\')
    newline := s.any (· == '\n')
    doubles := longestRun '"' 0 s
    singles := longestRun '\'' 0 s }

def hexDigitUpper (n : Nat) : Char := if n < 10 then Char.ofNat (48 + n) else Char.ofNat (55 + n)

/-- A control character by its number. -/
def coded (c : Char) : List Char :=
  let n := c.toNat
  ['\\', 'u', '0', '0', hexDigitUpper (n / 16), hexDigitUpper (n % 16)]

/-- A character between double quotes. -/
def escapeChar (c : Char) : List Char :=
  if c = '"' then ['\\', '"']
  else if c = '\\' then ['\\', '\\']
  else if c.toNat = 8 then ['\\', 'b']
  else if c = '\t' then ['\\', 't']
  else if c = '\n' then ['\\', 'n']
  else if c.toNat = 12 then ['\\', 'f']
  else if c = '\r' then ['\\', 'r']
  else if isControl c then coded c
  else [c]

def basicText (s : List Char) : List Char := '"' :: s.flatMap escapeChar ++ ['"']

def literalText (s : List Char) : List Char := '\'' :: s ++ ['\'']

/-- The inside of a string of several lines; of a run of double quotes every third is escaped. -/
def multilineInside : Nat → List Char → List Char
  | _, [] => []
  | run, '"' :: cs =>
    if run = 2 then '\\' :: '"' :: multilineInside 0 cs else '"' :: multilineInside (run + 1) cs
  | _, '\n' :: cs => '\n' :: multilineInside 0 cs
  | _, c :: cs => escapeChar c ++ multilineInside 0 cs

def openLine (newline : Bool) : List Char := if newline then ['\n'] else []

def multilineText (newline : Bool) (s : List Char) : List Char :=
  ['"', '"', '"'] ++ openLine newline ++ multilineInside 0 s ++ ['"', '"', '"']

def multilineLiteral (newline : Bool) (s : List Char) : List Char :=
  ['\'', '\'', '\''] ++ openLine newline ++ s ++ ['\'', '\'', '\'']

def stringText (s : List Char) : List Char :=
  let f := Shape.of s
  if !f.control && !f.backslash && f.doubles = 0 && !f.newline then basicText s
  else if !f.control && f.singles = 0 && !f.newline then literalText s
  else if !f.control && !f.backslash && f.doubles ≤ 2 then multilineText f.newline s
  else if !f.control && f.singles ≤ 2 then multilineLiteral f.newline s
  else if f.newline then multilineText true s
  else basicText s

def isBare (s : List Char) : Bool :=
  !s.isEmpty && s.all fun c => c.isAlphanum || c == '_' || c == '-'

def keyText (k : String) : List Char :=
  let s := k.toList
  let f := Shape.of s
  if isBare s then s
  else if !f.control && !f.newline && !f.backslash && f.doubles = 0 then basicText s
  else if !f.control && !f.newline && f.singles = 0 then literalText s
  else basicText s

def numberText : Json.Number → List Char
  | .whole n => (toString n).toList
  | .real x => (Decimal.settings.write x).toList

def scalarText : Json.Value → List Char
  | .bool b => (if b then "true" else "false").toList
  | .num n => numberText n
  | .str s => stringText s.toList
  | _ => []

def isTable : Json.Value → Bool
  | .obj _ => true
  | _ => false

def isNull : Json.Value → Bool
  | .null => true
  | _ => false

/-- The lines of the scalars of a table. -/
def scalarLines (ms : List (String × Json.Value)) : List (List Char) :=
  (ms.filter fun (_, v) => !isTable v && !isNull v).map fun (k, v) =>
    keyText k ++ " = ".toList ++ scalarText v ++ ['\n']

def headerLine (path : List String) : List Char :=
  '[' :: ['.'].intercalate (path.map keyText) ++ [']', '\n']

mutual

/-- The sections of a table, each a header with the lines below it. -/
def tableSections (path : List String) : Json.Value → List (List Char)
  | .obj ms =>
    let own := scalarLines ms
    let inner := memberSections path ms
    if own.isEmpty && !inner.isEmpty then inner
    else (headerLine path ++ own.flatten) :: inner
  | _ => []

/-- The sections of the tables among the members of a table. -/
def memberSections (path : List String) : List (String × Json.Value) → List (List Char)
  | [] => []
  | (k, v) :: rest => tableSections (path ++ [k]) v ++ memberSections path rest

end

/-- A document; sections are parted by empty lines. -/
def documentText (v : Json.Value) : List Char :=
  match v with
  | .obj ms =>
    let own := (scalarLines ms).flatten
    let all := (if own.isEmpty then [] else [own]) ++ memberSections [] ms
    ['\n'].intercalate all
  | _ => []

def document (v : Json.Value) : String := String.ofList (documentText v)

end RuleExchange.Toml
