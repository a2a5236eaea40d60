import RuleExchange.Text.Part

/-! Comments. Each rule language marks comments in its own way; they are taken out
before a rule is read and put behind it when it is written. A comment that starts with
`name:` gives the title of the rule. -/

namespace RuleExchange

inductive CommentStyle where
  /-- Lines that start with a number sign. -/
  | hash
  /-- Spans between triple backticks. -/
  | backticks
  /-- Spans between a slash with a star and a star with a slash. -/
  | block
  /-- Comments live in a member of the document itself. -/
  | jsonKey
  deriving DecidableEq, Repr

namespace Comment

/-- A rule's text without its comments, and the comments. -/
structure Stripped where
  text : List Char
  comments : List (List Char)
  deriving DecidableEq, Repr

/-- The trimmed text of the first `name:` comment that has one. -/
def Stripped.title (s : Stripped) : Option (List Char) :=
  s.comments.findSome? fun c =>
    match Text.after? "name:".toList c with
    | some t => if (Text.trim t).isEmpty then none else some (Text.trim t)
    | none => none

def fence : List Char := ['\x60', '\x60', '\x60']

def opening : List Char := ['/', '*']

def closing : List Char := ['*', '/']

/-- The comment of a line, if the line is one. -/
def ofLine (line : List Char) : Option (List Char) :=
  match Text.trimStart line with
  | '#' :: rest => some (Text.trim rest)
  | _ => none

def stripHash (s : List Char) : Stripped :=
  let ls := Text.lines s
  { text := Text.trim (Text.joinWith ['\n'] (ls.filter fun l => (ofLine l).isNone))
    comments := ls.filterMap ofLine }

/-- The text with each span replaced by a space, and the insides of the spans. A span runs from an
opening mark to the nearest closing mark after it. -/
def spans (start stop : List Char) : Nat → List Char → List Char × List (List Char)
  | 0, s => (s, [])
  | fuel + 1, s =>
    match Text.cut? start s with
    | none => (s, [])
    | some (before, rest) =>
      match Text.cut? stop rest with
      | none => (s, [])
      | some (inner, tail) =>
        let (text, more) := spans start stop fuel tail
        (before ++ ' ' :: text, inner :: more)

/-- The comments inside one span: its parts between line feeds and semicolons, without leading
stars, the empty ones left out. -/
def ofSpan (inner : List Char) : List (List Char) :=
  ((Text.splitWhere (fun c => c == '\n' || c == ';') inner).map fun part =>
    Text.trim ((Text.trim part).dropWhile (· == '*'))).filter fun c => !c.isEmpty

def stripSpans (start stop s : List Char) : Stripped :=
  let (text, inners) := spans start stop (s.length + 1) s
  { text := Text.trim text, comments := inners.flatMap ofSpan }

def strip (style : CommentStyle) (s : List Char) : Stripped :=
  match style with
  | .hash => stripHash s
  | .backticks => stripSpans fence fence s
  | .block => stripSpans opening closing s
  | .jsonKey => { text := Text.trim s, comments := [] }

/-- A line that can neither end nor split a comment. -/
def sanitize (line : List Char) : List Char :=
  let flat := line.map fun c => if c = '\n' ∨ c = ';' then ',' else c
  Text.replaceText closing ['*', ' ', '/'] (Text.replaceText fence ['\''] flat)

/-- Puts lines behind a rule as comments. -/
def annotate (style : CommentStyle) (content : List Char) (lines : List (List Char)) :
    List Char :=
  if lines.isEmpty then content
  else
    let clean := lines.map sanitize
    match style with
    | .hash => content ++ '\n' :: Text.joinWith ['\n'] (clean.map fun l => '#' :: ' ' :: l)
    | .backticks => content ++ ' ' :: fence ++ Text.joinWith [';', ' '] clean ++ fence
    | .block =>
      content ++ '\n' :: opening ++ ' ' :: Text.joinWith [';', ' '] clean ++ ' ' :: closing
    | .jsonKey => content

end Comment

end RuleExchange
