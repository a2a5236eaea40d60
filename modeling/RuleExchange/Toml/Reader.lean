import RuleExchange.Toml.Quoted
import RuleExchange.Toml.Table

/-! Reading TOML documents: lines that are blank, headers, or a key with its value. -/

namespace RuleExchange.Toml

def skipSpace (s : List Char) : List Char := s.dropWhile isSpace

/-- What follows a comment, if there is one. -/
def skipComment (s : List Char) : List Char :=
  match s with
  | '#' :: rest => rest.dropWhile isPlain
  | _ => s

/-- The text after the end of a line: blanks, a comment, and a line break or the end. -/
def endLine? (s : List Char) : Option (List Char) :=
  match skipComment (skipSpace s) with
  | [] => some []
  | rest => lineBreak? rest

/-- Passes over blanks, comments and line breaks. -/
def skipLines : Nat → List Char → List Char
  | 0, s => s
  | fuel + 1, s =>
    let rest := skipComment (skipSpace s)
    match lineBreak? rest with
    | some rest => skipLines fuel rest
    | none => rest

/-- A scalar without quotes; a day may be followed by a space and a time. -/
def atom? (s : List Char) : Option (Json.Value × List Char) :=
  let word := s.takeWhile isAtomChar
  let rest := s.drop word.length
  match rest with
  | ' ' :: d :: more =>
    if calendarDay? word == some [] && Decimal.isDigit d then
      let time := (d :: more).takeWhile isAtomChar
      (scalar? (word ++ ' ' :: time)).map fun v => (v, (d :: more).drop time.length)
    else (scalar? word).map fun v => (v, rest)
  | _ => (scalar? word).map fun v => (v, rest)

/-- The deepest nesting of lists and tables inside values. -/
def maxNesting : Nat := 80

mutual

/-- A value at the start of a text; `fuel` bounds the length of what is read. -/
def value? : Nat → Nat → List Char → Option (Json.Value × List Char)
  | 0, _, _ => none
  | fuel + 1, depth, s =>
    match s with
    | '[' :: rest => if depth = 0 then none else items? fuel (depth - 1) [] rest
    | '\x7b' :: rest => if depth = 0 then none else inline? fuel (depth - 1) [] rest
    | '"' :: _ => (string? s).map fun (t, r) => (.str (String.ofList t), r)
    | '\'' :: _ => (string? s).map fun (t, r) => (.str (String.ofList t), r)
    | _ => atom? s

/-- The items of a list, after its opening bracket or a comma. -/
def items? : Nat → Nat → List Json.Value → List Char → Option (Json.Value × List Char)
  | 0, _, _, _ => none
  | fuel + 1, depth, acc, s =>
    match skipLines s.length s with
    | ']' :: rest => some (.arr acc.reverse, rest)
    | rest =>
      match value? fuel depth rest with
      | none => none
      | some (v, rest) =>
        match skipLines rest.length rest with
        | ',' :: rest => items? fuel depth (v :: acc) rest
        | ']' :: rest => some (.arr (v :: acc).reverse, rest)
        | _ => none

/-- The members of a table inside a value, after its opening brace or a comma. -/
def inline? : Nat → Nat → Members → List Char → Option (Json.Value × List Char)
  | 0, _, _, _ => none
  | fuel + 1, depth, acc, s =>
    match skipLines s.length s with
    | '\x7d' :: rest => some (.obj (membersJson acc), rest)
    | rest =>
      match key? rest.length rest with
      | some (k, '=' :: rest) =>
        match value? fuel depth (skipSpace rest) with
        | none => none
        | some (v, rest) =>
          match setDotted v k true acc with
          | none => none
          | some acc =>
            match skipLines rest.length rest with
            | ',' :: rest => inline? fuel depth acc rest
            | '\x7d' :: rest => some (.obj (membersJson acc), rest)
            | _ => none
      | _ => none

end

/-- The tables read so far, and the path of the last header. -/
structure Document where
  root : Members := []
  path : List String := []

/-- A header after its opening bracket, and what follows its line. -/
def header? (isItem : Bool) (d : Document) (s : List Char) : Option (Document × List Char) := do
  let (path, rest) ← key? s.length s
  let rest ← Text.after? (if isItem then [']', ']'] else [']']) rest
  let rest ← endLine? rest
  let k ← path.getLast?
  let opened := if isItem then openItem path.dropLast k d.root else openTable path.dropLast k d.root
  let root ← opened
  return (⟨root, path⟩, rest)

/-- A key with its value, and what follows its line. -/
def assignment? (d : Document) (s : List Char) : Option (Document × List Char) := do
  let (k, rest) ← key? s.length s
  let rest ← Text.after? ['='] rest
  let (v, rest) ← value? (rest.length + 1) maxNesting (skipSpace rest)
  let rest ← endLine? rest
  let root ← setKey d.path k v d.root
  return ({ d with root }, rest)

/-- The lines of a document, one after the other. -/
def lines? : Nat → Document → List Char → Option Document
  | 0, _, _ => none
  | fuel + 1, d, s =>
    match skipSpace s with
    | [] => some d
    | '[' :: '[' :: rest => (header? true d rest).bind fun (d, rest) => lines? fuel d rest
    | '[' :: rest => (header? false d rest).bind fun (d, rest) => lines? fuel d rest
    | c :: rest =>
      if c = '#' ∨ c = '\n' ∨ c = '\r' then (endLine? (c :: rest)).bind (lines? fuel d)
      else (assignment? d (c :: rest)).bind fun (d, rest) => lines? fuel d rest

/-- The value of a document, if it is well formed; a byte order mark may lead it. -/
def ofText? (s : List Char) : Option Json.Value :=
  let s := match s with
    | c :: rest => if c.toNat = 0xFEFF then rest else s
    | [] => []
  (lines? (s.length + 1) {} s).map fun d => .obj (membersJson d.root)

end RuleExchange.Toml
