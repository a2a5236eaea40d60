import RuleExchange.Signature.Basic

/-! Reading signatures. The header is seven words, the fifth being an arrow; the
options stand between the parenthesis after the seventh word and the last one of the
text, which only blanks and one semicolon may follow. -/

namespace RuleExchange.Signature

inductive Error where
  | header
  | emptyKey (offset : Nat)
  | unterminated (key : String)
  | textAfterQuoted (key : String)
  deriving DecidableEq, Repr

def Error.message : Error → String
  | .header => "expected 'action proto src sport -> dst dport (options)'"
  | .emptyKey offset => "empty option key at offset " ++ toString offset
  | .unterminated key => "unterminated quoted value for option '" ++ key ++ "'"
  | .textAfterQuoted key => "unexpected text after quoted value of '" ++ key ++ "'"

/-! ### Options -/

/-- The text up to a stop character that no backslash escapes, and the rest from there on. -/
def rawUntil (stop : Char) : Bool → List Char → List Char × List Char
  | _, [] => ([], [])
  | true, c :: cs =>
    let (raw, rest) := rawUntil stop false cs
    (c :: raw, rest)
  | false, c :: cs =>
    if c = stop then ([], c :: cs)
    else
      let (raw, rest) := rawUntil stop (c = '\\') cs
      (c :: raw, rest)

/-- A quoted value after its opening quote, and what follows the semicolon behind it. -/
def readQuotedValue (key : String) (s : List Char) : Except Error (List Char × List Char) :=
  match rawUntil '"' false s with
  | (_, []) => .error (.unterminated key)
  | (raw, _ :: rest) =>
    let value :=
      if key = "pcre" then Text.replaceText ['\\', '"'] ['"'] raw else Text.Quoted.unescape raw
    match rest.dropWhile Text.isBlank with
    | [] => .ok (value, [])
    | c :: tail => if c = ';' then .ok (value, tail) else .error (.textAfterQuoted key)

/-- A bare value, and what follows the semicolon behind it. -/
def readBareValue (s : List Char) : List Char × List Char :=
  let (raw, rest) := rawUntil ';' false s
  (Text.replaceText ['\\', ';'] [';'] (Text.trim raw), rest.drop 1)

/-- The value after a key's colon. -/
def readOptionValue (key : String) (s : List Char) : Except Error (RuleOption × List Char) := do
  let s := s.dropWhile Text.isBlank
  let (negated, s) := match s with
    | '!' :: rest => (true, rest)
    | _ => (false, s)
  let (value, rest) ← match s with
    | '"' :: rest => readQuotedValue key rest
    | _ => .ok (readBareValue s)
  return ({ key, value := some (String.ofList value), negated }, rest)

def isKeyChar (c : Char) : Bool := c != ':' && c != ';'

/-- Reads options; `size` is the length of the whole list of options. -/
def readOptionsFrom (size : Nat) : Nat → List Char → Except Error (List RuleOption)
  | 0, _ => .ok []
  | fuel + 1, s =>
    let s := s.dropWhile fun c => Text.isBlank c || c == ';'
    if s.isEmpty then .ok []
    else
      let key := String.ofList (Text.trim (s.takeWhile isKeyChar))
      if key.isEmpty then .error (.emptyKey (size - s.length))
      else
        match s.dropWhile isKeyChar with
        | ':' :: rest => do
          let (o, rest) ← readOptionValue key rest
          let os ← readOptionsFrom size fuel rest
          return o :: os
        | rest => do
          let os ← readOptionsFrom size fuel (rest.drop 1)
          return .flag key :: os

def readOptions (s : List Char) : Except Error (List RuleOption) :=
  readOptionsFrom s.length (s.length + 1) s

/-! ### Header -/

def isSolid (c : Char) : Bool := !Text.isBlank c

/-- A word and the text after the blanks that must follow it. -/
def readWord (s : List Char) : Option (List Char × List Char) :=
  match s.takeWhile isSolid, s.dropWhile isSolid with
  | [], _ => none
  | _, [] => none
  | word, rest => some (word, rest.dropWhile Text.isBlank)

/-- The options inside the last closing parenthesis of a text that ends properly. -/
def insideClose (s : List Char) : Option (List Char) :=
  let back := s.reverse.dropWhile Text.isBlank
  let back := match back with
    | ';' :: rest => rest.dropWhile Text.isBlank
    | _ => back
  match back with
  | ')' :: rest => some rest.reverse
  | _ => none

/-- The cuts of a word before one of its parentheses, the longest first. -/
def cutsAtParen : List Char → List Char → List (List Char × List Char)
  | _, [] => []
  | before, c :: cs =>
    cutsAtParen (c :: before) cs ++
      (if c = '(' ∧ !before.isEmpty then [(before.reverse, cs)] else [])

/-- The last word of the header and the options: the longest word that a parenthesis follows and
that leaves a closing one. -/
def readTail (s : List Char) : Option (List Char × List Char) :=
  let word := s.takeWhile isSolid
  let rest := s.dropWhile isSolid
  let whole := match rest.dropWhile Text.isBlank with
    | '(' :: inner => if word.isEmpty then [] else [(word, inner)]
    | _ => []
  let cuts := whole ++ (cutsAtParen [] word).map fun (w, r) => (w, r ++ rest)
  cuts.findSome? fun (w, r) => (insideClose r).map fun options => (w, options)

/-- The seven words of the header and the text of the options. -/
def readHeader (s : List Char) : Option (String × NetworkHeader × List Char) := do
  let (action, s) ← readWord (s.dropWhile Text.isBlank)
  let (protocol, s) ← readWord s
  let (source, s) ← readWord s
  let (sourcePort, s) ← readWord s
  let (direction, s) ← readWord s
  if direction ≠ ['-', '>'] ∧ direction ≠ ['<', '>'] then none
  let (destination, s) ← readWord s
  let (destinationPort, options) ← readTail s
  return (String.ofList action,
    { protocol := String.ofList protocol
      source := String.ofList source
      sourcePort := String.ofList sourcePort
      direction := String.ofList direction
      destination := String.ofList destination
      destinationPort := String.ofList destinationPort }, options)

/-- Whether a text has the outer form of a signature. -/
def looksLike (s : List Char) : Bool := (readHeader s).isSome

def parse (s : List Char) : Except Error Signature := do
  match readHeader s with
  | none => .error .header
  | some (action, header, options) => return { action, header, options := ← readOptions options }

end RuleExchange.Signature
