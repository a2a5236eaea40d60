import RuleExchange.Text.Part
import RuleExchange.Text.Literal

/-! Semantic versions. A version is three numbers, a pre-release and build data, the
last two being dot separated identifiers. Versions are ordered by their numbers, then
by pre-release, a version without one being the greater, then by build data. The
lenient reader accepts leading `v`s and fills in missing numbers with zero. -/

namespace RuleExchange

structure SemVer where
  major : Nat
  minor : Nat
  patch : Nat
  pre : String := ""
  build : String := ""
  deriving DecidableEq, Repr

namespace SemVer

inductive Part where
  | major
  | minor
  | patch
  | pre
  | build
  deriving DecidableEq, Repr

def Part.name : Part → String
  | .major => "major version number"
  | .minor => "minor version number"
  | .patch => "patch version number"
  | .pre => "pre-release identifier"
  | .build => "build metadata"

inductive Error where
  | empty
  | endOfInput (part : Part)
  | unexpected (c : Char) (part : Part)
  | unexpectedAfter (c : Char) (part : Part)
  | leadingZero (part : Part)
  | overflow (part : Part)
  | emptySegment (part : Part)
  deriving DecidableEq, Repr

def Error.message : Error → String
  | .empty => "empty string, expected a semver version"
  | .endOfInput p => "unexpected end of input while parsing " ++ p.name
  | .unexpected c p =>
    "unexpected character " ++ Text.Literal.showCharacter c ++ " while parsing " ++ p.name
  | .unexpectedAfter c p =>
    "unexpected character " ++ Text.Literal.showCharacter c ++ " after " ++ p.name
  | .leadingZero p => "invalid leading zero in " ++ p.name
  | .overflow p => "value of " ++ p.name ++ " exceeds u64::MAX"
  | .emptySegment p => "empty identifier segment in " ++ p.name

/-- Reads digits from the left; the first digit that makes the number invalid decides. -/
def digitsFrom (p : Part) : Nat → Nat → List Char → Except Error (Nat × Nat × List Char)
  | value, len, [] => .ok (value, len, [])
  | value, len, c :: cs =>
    if c.isDigit then
      if value = 0 ∧ 0 < len then .error (.leadingZero p)
      else
        let next := 10 * value + (c.toNat - 48)
        if next < Nat.pow 2 64 then digitsFrom p next (len + 1) cs else .error (.overflow p)
    else .ok (value, len, c :: cs)

def number (p : Part) (s : List Char) : Except Error (Nat × List Char) := do
  let (value, len, rest) ← digitsFrom p 0 0 s
  if 0 < len then .ok (value, rest)
  else match rest with
    | c :: _ => .error (.unexpected c p)
    | [] => .error (.endOfInput p)

def dot (p : Part) : List Char → Except Error (List Char)
  | '.' :: rest => .ok rest
  | c :: _ => .error (.unexpectedAfter c p)
  | [] => .error (.endOfInput p)

def isIdentifierChar (c : Char) : Bool := c.isAlphanum || c == '-'

def checkSegment (p : Part) (segment : List Char) : Except Error Unit :=
  if p = .pre ∧ segment.all Char.isDigit ∧ 1 < segment.length ∧ segment.head? = some '0' then
    .error (.leadingZero p)
  else .ok ()

/-- Identifiers up to the first character that belongs to none; `read` holds the text so far and
`segment` the current identifier, both reversed. -/
def identifiersFrom (p : Part) :
    List Char → List Char → List Char → Except Error (List Char × List Char)
  | read, segment, [] => do
    if segment.isEmpty then
      if read.isEmpty then .ok ([], []) else .error (.emptySegment p)
    else
      checkSegment p segment.reverse
      .ok ((segment ++ read).reverse, [])
  | read, segment, c :: cs => do
    if isIdentifierChar c then identifiersFrom p read (c :: segment) cs
    else if segment.isEmpty then
      if read.isEmpty ∧ c ≠ '.' then .ok ([], c :: cs) else .error (.emptySegment p)
    else
      checkSegment p segment.reverse
      if c = '.' then identifiersFrom p ('.' :: segment ++ read) [] cs
      else .ok ((segment ++ read).reverse, c :: cs)

/-- What follows a mark, as identifiers; without the mark there are none. -/
def marked (mark : Char) (p : Part) (s : List Char) :
    Except Error (Option (List Char) × List Char) :=
  match s with
  | c :: rest =>
    if c = mark then do
      let (text, rest) ← identifiersFrom p [] [] rest
      if text.isEmpty then .error (.emptySegment p) else .ok (some text, rest)
    else .ok (none, s)
  | [] => .ok (none, s)

def parse (s : List Char) : Except Error SemVer := do
  if s.isEmpty then .error .empty
  let (major, s) ← number .major s
  let s ← dot .major s
  let (minor, s) ← number .minor s
  let s ← dot .minor s
  let (patch, s) ← number .patch s
  let (pre, s) ← marked '-' .pre s
  let (build, s) ← marked '+' .build s
  let last := if build.isSome then Part.build else if pre.isSome then .pre else .patch
  match s with
  | c :: _ => .error (.unexpectedAfter c last)
  | [] => .ok ⟨major, minor, patch, String.ofList (pre.getD []), String.ofList (build.getD [])⟩

/-- Leading `v`s and blanks are dropped; one or two missing numbers are zero. -/
def padded (s : List Char) : List Char :=
  let t := (Text.trim s).dropWhile (· == 'v')
  match t.count '.' with
  | 0 => t ++ ".0.0".toList
  | 1 => t ++ ".0".toList
  | _ => t

def parseLenient (s : String) : Except Error SemVer := parse (padded s.toList)

/-! ### Order -/

def compareText (a b : List Char) : Ordering :=
  compareOfLessAndEq (String.ofList a) (String.ofList b)

def isNumeric (s : List Char) : Bool := s.all Char.isDigit

def comparePreSegment (a b : List Char) : Ordering :=
  match isNumeric a, isNumeric b with
  | true, true => (compare a.length b.length).then (compareText a b)
  | false, true => .gt
  | true, false => .lt
  | false, false => compareText a b

/-- Numbers with leading zeros stand after the same number with fewer of them. -/
def compareBuildSegment (a b : List Char) : Ordering :=
  match isNumeric a, isNumeric b with
  | true, true =>
    let x := a.dropWhile (· == '0')
    let y := b.dropWhile (· == '0')
    ((compare x.length y.length).then (compareText x y)).then (compare a.length b.length)
  | false, true => .gt
  | true, false => .lt
  | false, false => compareText a b

def compareSegments (cmp : List Char → List Char → Ordering) :
    List (List Char) → List (List Char) → Ordering
  | [], [] => .eq
  | [], _ :: _ => .lt
  | _ :: _, [] => .gt
  | a :: as, b :: bs => (cmp a b).then (compareSegments cmp as bs)

def segments (s : String) : List (List Char) := Text.splitWhere (· == '.') s.toList

def comparePre (a b : String) : Ordering :=
  match a.isEmpty, b.isEmpty with
  | true, true => .eq
  | true, false => .gt
  | false, true => .lt
  | false, false => compareSegments comparePreSegment (segments a) (segments b)

def compareBuild (a b : String) : Ordering :=
  compareSegments compareBuildSegment (segments a) (segments b)

protected def compare (a b : SemVer) : Ordering :=
  (compare a.major b.major).then <| (compare a.minor b.minor).then <|
    (compare a.patch b.patch).then <| (comparePre a.pre b.pre).then <|
      compareBuild a.build b.build

def le (a b : SemVer) : Bool := (a.compare b).isLE

/-- Whether a version lies in the window between two others, all read leniently. -/
def inWindow (version lo hi : String) : Except Error Bool := do
  let v ← parseLenient version
  let a ← parseLenient lo
  let b ← parseLenient hi
  return a.le v && v.le b

end SemVer

end RuleExchange
