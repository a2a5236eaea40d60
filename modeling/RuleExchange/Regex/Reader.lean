import RuleExchange.Regex.Pattern
import RuleExchange.Decimal.Read
import RuleExchange.Json.Source

/-! Reading regular expressions: literals, classes, groups, alternatives, repetitions,
anchors and flags. Back-references and look-around are refused, as are repetitions of
nothing, reversed bounds and names given to two groups. -/

namespace RuleExchange.Regex

structure Flags where
  ignoreCase : Bool := false
  multiLine : Bool := false
  dotAll : Bool := false
  spaced : Bool := false
  deriving DecidableEq, Repr

/-- A literal, in all its cases where case is ignored. -/
def Flags.cased (f : Flags) (s : CharSet) : CharSet := if f.ignoreCase then .fold s else s

def Flags.dot (f : Flags) : CharSet := if f.dotAll then .all else .compl .newline

/-! ### Escapes -/

/-- What a backslash and a character stand for. -/
inductive Escape where
  | literal (c : Char)
  | set (s : CharSet)
  | look (l : Look)

def hexNumber (s : List Char) : Option Nat :=
  if s.isEmpty then none
  else s.foldl (fun acc c => do
    let n ← acc
    let d ← Json.hexValue c
    if n < 0x110000 then some (16 * n + d) else none) (some 0)

def charOf? (n : Nat) : Option Char :=
  if n < 0xD800 ∨ (0xDFFF < n ∧ n < 0x110000) then some (Char.ofNat n) else none

/-- A character by its number: fixed digits, or any number of them in braces. -/
def readHex (digits : Nat) (s : List Char) : Option (Escape × List Char) := do
  match s with
  | '\x7b' :: rest =>
    let ds := rest.takeWhile (· != '\x7d')
    let tail ← Text.after? ['\x7d'] (rest.dropWhile (· != '\x7d'))
    let c ← charOf? (← hexNumber ds)
    return (.literal c, tail)
  | _ =>
    if s.length < digits then none
    let c ← charOf? (← hexNumber (s.take digits))
    return (.literal c, s.drop digits)

def letterSet : CharSet :=
  .diff .word (.union .digit (.single '_'))

/-- The properties of characters that can be named. -/
def propertySet (name : List Char) : Option CharSet :=
  match String.ofList (Text.asciiLower (name.filter fun c => c != '_' && c != ' ' && c != '-')) with
  | "l" | "letter" | "alphabetic" | "alpha" => some letterSet
  | "nd" | "decimalnumber" | "digit" => some .digit
  | "whitespace" => some .blank
  | _ => none

def readProperty (positive : Bool) (s : List Char) : Option (Escape × List Char) := do
  let (name, tail) ← match s with
    | '\x7b' :: rest =>
      (Text.after? ['\x7d'] (rest.dropWhile (· != '\x7d'))).map fun tail =>
        (rest.takeWhile (· != '\x7d'), tail)
    | c :: rest => some ([c], rest)
    | [] => none
  let set ← propertySet name
  return (.set (if positive then set else .compl set), tail)

/-- What follows a backslash. -/
def readEscape (s : List Char) : Option (Escape × List Char) :=
  match s with
  | [] => none
  | c :: rest =>
    match c with
    | 'd' => some (.set .digit, rest)
    | 'D' => some (.set (.compl .digit), rest)
    | 's' => some (.set .blank, rest)
    | 'S' => some (.set (.compl .blank), rest)
    | 'w' => some (.set .word, rest)
    | 'W' => some (.set (.compl .word), rest)
    | 'p' => readProperty true rest
    | 'P' => readProperty false rest
    | 'x' => readHex 2 rest
    | 'u' => readHex 4 rest
    | 'U' => readHex 8 rest
    | 'a' => some (.literal (Char.ofNat 7), rest)
    | 'f' => some (.literal (Char.ofNat 12), rest)
    | 't' => some (.literal '\t', rest)
    | 'n' => some (.literal '\n', rest)
    | 'r' => some (.literal '\r', rest)
    | 'v' => some (.literal (Char.ofNat 11), rest)
    | 'A' => some (.look .textStart, rest)
    | 'z' => some (.look .textEnd, rest)
    | 'b' =>
      match Text.after? "\x7bstart\x7d".toList rest with
      | some tail => some (.look .wordStart, tail)
      | none =>
        match Text.after? "\x7bend\x7d".toList rest with
        | some tail => some (.look .wordEnd, tail)
        | none => some (.look .wordBoundary, rest)
    | 'B' => some (.look .noWordBoundary, rest)
    | '<' => some (.look .wordStart, rest)
    | '>' => some (.look .wordEnd, rest)
    | _ => if c.toNat < 128 ∧ !c.isAlphanum then some (.literal c, rest) else none

/-! ### Classes -/

def namedClass (name : String) : Option CharSet :=
  let letters : CharSet := .union (.range 'a' 'z') (.range 'A' 'Z')
  let digits : CharSet := .range '0' '9'
  match name with
  | "alnum" => some (.union letters digits)
  | "alpha" => some letters
  | "ascii" => some (.range (Char.ofNat 0) (Char.ofNat 127))
  | "blank" => some (.union (.single ' ') (.single '\t'))
  | "cntrl" => some (.union (.range (Char.ofNat 0) (Char.ofNat 31)) (.single (Char.ofNat 127)))
  | "digit" => some digits
  | "graph" => some (.range '!' '~')
  | "lower" => some (.range 'a' 'z')
  | "print" => some (.range ' ' '~')
  | "punct" => some (.diff (.range '!' '~') (.union letters digits))
  | "space" => some (.union (.range '\t' '\r') (.single ' '))
  | "upper" => some (.range 'A' 'Z')
  | "word" => some (.union (.union letters digits) (.single '_'))
  | "xdigit" => some (.union digits (.union (.range 'a' 'f') (.range 'A' 'F')))
  | _ => none

/-- A class such as `[:alpha:]`, after its first bracket; case is dealt with before negation. -/
def readNamedClass (f : Flags) (s : List Char) : Option (CharSet × List Char) := do
  let rest ← Text.after? [':'] s
  let (negated, rest) := match rest with
    | '^' :: more => (true, more)
    | _ => (false, rest)
  let (name, tail) ← Text.cut? [':', ']'] rest
  let set := f.cased (← namedClass (String.ofList name))
  return (if negated then .compl set else set, tail)

/-- One end of a range: a character, or a set that cannot be an end. -/
def readClassAtom (s : List Char) : Option ((Char ⊕ CharSet) × List Char) :=
  match s with
  | [] => none
  | '\\' :: rest =>
    match readEscape rest with
    | some (.literal c, tail) => some (.inl c, tail)
    | some (.set x, tail) => some (.inr x, tail)
    | _ => none
  | c :: rest => some (.inl c, rest)

/-- One item of a class that is no nested class. -/
def readClassItem (f : Flags) (s : List Char) : Option (CharSet × List Char) := do
  let (first, rest) ← readClassAtom s
  match first with
  | .inr set =>
    match rest with
    | '-' :: c :: _ => if c = ']' ∨ c = '-' then some (set, rest) else none
    | _ => some (set, rest)
  | .inl lo =>
    match rest with
    | '-' :: c :: more =>
      if c = ']' ∨ c = '-' then some (f.cased (.single lo), rest)
      else do
        let (last, tail) ← readClassAtom (c :: more)
        match last with
        | .inr _ => none
        | .inl hi => if lo ≤ hi then some (f.cased (.range lo hi), tail) else none
    | _ => some (f.cased (.single lo), rest)

inductive SetOperator where
  | inter
  | diff
  | symmDiff

def readSetOperator : List Char → Option (SetOperator × List Char)
  | '&' :: '&' :: rest => some (.inter, rest)
  | '-' :: '-' :: rest => some (.diff, rest)
  | '~' :: '~' :: rest => some (.symmDiff, rest)
  | _ => none

def SetOperator.apply : Option (SetOperator × CharSet) → CharSet → CharSet
  | none, b => b
  | some (.inter, a), b => .inter a b
  | some (.diff, a), b => .diff a b
  | some (.symmDiff, a), b => .symmDiff a b

mutual

/-- The items of a class up to its closing bracket; `left` is what an operator still waits with. -/
def readClassItems (f : Flags) :
    Nat → Option (SetOperator × CharSet) → CharSet → List Char → Option (CharSet × List Char)
  | 0, _, _, _ => none
  | fuel + 1, left, acc, s =>
    match readSetOperator s with
    | some (op, rest) => readClassItems f fuel (some (op, SetOperator.apply left acc)) .none rest
    | none =>
      match s with
      | [] => none
      | ']' :: rest => some (SetOperator.apply left acc, rest)
      | '[' :: rest =>
        match readNamedClass f rest with
        | some (set, tail) => readClassItems f fuel left (.union acc set) tail
        | none => do
          let (set, tail) ← readClass f fuel rest
          readClassItems f fuel left (.union acc set) tail
      | _ => do
        let (set, tail) ← readClassItem f s
        readClassItems f fuel left (.union acc set) tail

/-- A class after its opening bracket; dashes in the first places are members, and so is a closing
bracket in the first place. -/
def readClass (f : Flags) : Nat → List Char → Option (CharSet × List Char)
  | 0, _ => none
  | fuel + 1, s => do
    let (negated, s) := match s with
      | '^' :: rest => (true, rest)
      | _ => (false, s)
    let (first, s) := match s with
      | ']' :: rest => (CharSet.single ']', rest)
      | '-' :: rest => (CharSet.single '-', rest.dropWhile (· == '-'))
      | _ => (CharSet.none, s)
    let (set, tail) ← readClassItems f fuel none first s
    return (if negated then .compl set else set, tail)

end

/-! ### Repetitions -/

/-- The bounds of a repetition after the opening brace. -/
def readBounds (s : List Char) : Option (Nat × Option Nat × List Char) := do
  let isPad (c : Char) : Bool := Text.isBlank c
  let s := s.dropWhile isPad
  let ds := s.takeWhile Decimal.isDigit
  if ds.isEmpty then none
  let lo := Decimal.digitsValue ds
  if Nat.pow 2 32 ≤ lo then none
  match (s.dropWhile Decimal.isDigit).dropWhile isPad with
  | '\x7d' :: tail => some (lo, some lo, tail)
  | ',' :: rest =>
    let rest := rest.dropWhile isPad
    match rest with
    | '\x7d' :: tail => some (lo, none, tail)
    | _ =>
      let es := rest.takeWhile Decimal.isDigit
      if es.isEmpty then none
      let hi := Decimal.digitsValue es
      if Nat.pow 2 32 ≤ hi then none
      match (rest.dropWhile Decimal.isDigit).dropWhile isPad with
      | '\x7d' :: tail => if lo ≤ hi then some (lo, some hi, tail) else none
      | _ => none
  | _ => none

/-- The greatest number of steps of a repetition written out. -/
def sizeLimit : Nat := 327680

/-- A repetition written out, unless it is too large for that. -/
def repeated (p : Pattern) (lo : Nat) (hi : Option Nat) : Option Pattern :=
  if sizeLimit < p.size * (hi.getD (lo + 1)) then none
  else
    match hi with
    | none => some ((p.times lo).andThen (.star p))
    | some hi => some ((p.times lo).andThen (p.upTo (hi - lo)))

/-- A mark of laziness says nothing about whether an expression occurs. -/
def dropLazy : List Char → List Char
  | '?' :: rest => rest
  | s => s

/-- Applies the repetitions that follow an expression. -/
def readPostfix : Nat → Pattern → List Char → Option (Pattern × List Char)
  | 0, _, _ => none
  | fuel + 1, p, s =>
    match s with
    | '*' :: rest => readPostfix fuel (.star p) (dropLazy rest)
    | '+' :: rest => readPostfix fuel (p.andThen (.star p)) (dropLazy rest)
    | '?' :: rest => readPostfix fuel (.alt .empty p) (dropLazy rest)
    | '\x7b' :: rest => do
      let (lo, hi, tail) ← readBounds rest
      readPostfix fuel (← repeated p lo hi) (dropLazy tail)
    | _ => some (p, s)

/-! ### Groups -/

def setFlag (f : Flags) (on : Bool) (c : Char) : Option Flags :=
  match c with
  | 'i' => some { f with ignoreCase := on }
  | 'm' => some { f with multiLine := on }
  | 's' => some { f with dotAll := on }
  | 'x' => some { f with spaced := on }
  | 'U' | 'u' | 'R' => some f
  | _ => none

/-- Flags up to a colon or the closing parenthesis; each may be named once. -/
def readFlags (f : Flags) (on : Bool) (seen : List Char) :
    List Char → Option (Flags × List Char)
  | [] => none
  | c :: rest =>
    if c = ':' ∨ c = ')' then
      if seen.head? = some '-' then none else some (f, c :: rest)
    else if seen.contains c then none
    else if c = '-' then readFlags f false (c :: seen) rest
    else do
      let f ← setFlag f on c
      readFlags f on (c :: seen) rest

def isNameChar (c : Char) : Bool := c.isAlphanum || c == '_' || c == '.' || c == '[' || c == ']'

/-- The name of a group up to its closing mark. -/
def readGroupName (s : List Char) : Option (List Char × List Char) := do
  let name := s.takeWhile isNameChar
  match name with
  | [] => none
  | c :: _ =>
    if !(c.isAlpha || c == '_') then none
    let tail ← Text.after? ['>'] (s.dropWhile isNameChar)
    return (name, tail)

/-- What an opening parenthesis starts. -/
inductive Opening where
  /-- A group with the flags inside it, and its name. -/
  | group (inner : Flags) (name : Option (List Char))
  /-- New flags for the rest of the enclosing group. -/
  | flags (f : Flags)

def readOpening (f : Flags) (s : List Char) : Option (Opening × List Char) :=
  match s with
  | '?' :: 'P' :: '<' :: rest =>
    (readGroupName rest).map fun (name, tail) => (.group f (some name), tail)
  | '?' :: '<' :: rest =>
    (readGroupName rest).map fun (name, tail) => (.group f (some name), tail)
  | '?' :: rest => do
    let (g, tail) ← readFlags f true [] rest
    match tail with
    | ':' :: more => some (.group g none, more)
    | ')' :: more => if rest.head? = some ')' then none else some (.flags g, more)
    | _ => none
  | _ => some (.group f none, s)

/-- Blanks and comments between the parts of a spaced expression. -/
def skipSpaced : Nat → Flags → List Char → List Char
  | 0, _, s => s
  | fuel + 1, f, s =>
    if f.spaced then
      match s with
      | '#' :: rest => skipSpaced fuel f (rest.dropWhile (· != '\n'))
      | c :: rest => if Text.isBlank c then skipSpaced fuel f rest else s
      | [] => []
    else s

/-- What has been read: the expression, the flags in force, the group names so far, the rest. -/
structure Progress where
  pattern : Pattern
  flags : Flags
  names : List (List Char)
  rest : List Char

def readAtom (f : Flags) (s : List Char) : Option (Pattern × List Char) :=
  match s with
  | [] => none
  | c :: rest =>
    match c with
    | '.' => some (.chars f.dot, rest)
    | '^' => some (.look (if f.multiLine then .lineStart else .textStart), rest)
    | '$' => some (.look (if f.multiLine then .lineEnd else .textEnd), rest)
    | '[' => (readClass f (s.length + 1) rest).map fun (set, tail) => (.chars set, tail)
    | '\\' =>
      match readEscape rest with
      | some (.literal x, tail) => some (.chars (f.cased (.single x)), tail)
      | some (.set x, tail) => some (.chars x, tail)
      | some (.look l, tail) => some (.look l, tail)
      | none => none
    | '*' | '+' | '?' | '\x7b' => none
    | _ => some (.chars (f.cased (.single c)), rest)

mutual

/-- Alternatives up to a closing parenthesis or the end. -/
def readAlternatives : Nat → Flags → List (List Char) → List Char → Option Progress
  | 0, _, _, _ => none
  | fuel + 1, f, names, s => do
    let left ← readSequence fuel f names .empty s
    match left.rest with
    | '|' :: rest =>
      let right ← readAlternatives fuel left.flags left.names rest
      return { right with pattern := .alt left.pattern right.pattern }
    | _ => return left

/-- A sequence after the part already read. -/
def readSequence :
    Nat → Flags → List (List Char) → Pattern → List Char → Option Progress
  | 0, _, _, _, _ => none
  | fuel + 1, f, names, before, s =>
    match skipSpaced (s.length + 1) f s with
    | [] => some ⟨before, f, names, []⟩
    | '|' :: rest => some ⟨before, f, names, '|' :: rest⟩
    | ')' :: rest => some ⟨before, f, names, ')' :: rest⟩
    | '(' :: rest => do
      match ← readOpening f rest with
      | (.flags g, tail) =>
        readSequence fuel g names before tail
      | (.group g name, tail) =>
        let names ← match name with
          | none => some names
          | some n => if names.contains n then none else some (n :: names)
        let inner ← readAlternatives fuel g names tail
        match inner.rest with
        | ')' :: after =>
          let (p, tail) ← readPostfix (after.length + 1) inner.pattern after
          readSequence fuel f inner.names (before.andThen p) tail
        | _ => none
    | s => do
      let (atom, rest) ← readAtom f s
      let (p, tail) ← readPostfix (rest.length + 1) atom rest
      readSequence fuel f names (before.andThen p) tail

end

/-- The expression that a text writes, if it writes one. -/
def Pattern.ofText? (s : List Char) : Option Pattern := do
  let done ← readAlternatives (2 * s.length + 2) {} [] s
  if done.rest.isEmpty then some done.pattern else none

end RuleExchange.Regex
