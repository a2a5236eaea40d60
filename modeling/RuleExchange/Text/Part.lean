import RuleExchange.Text.Blank

/-! Parts of a text: what follows a given start, the first occurrence of a
pattern, replacing and splitting from left to right, and lines. All functions
work on lists of characters and lose nothing but the separators. -/

namespace RuleExchange.Text

/-- What remains after `start`, when the text begins with it. -/
def after? : List Char → List Char → Option (List Char)
  | [], s => some s
  | _ :: _, [] => none
  | p :: ps, c :: cs => if p = c then after? ps cs else none

/-- The text before and after the first occurrence of `sep`. -/
def cut? (sep : List Char) : List Char → Option (List Char × List Char)
  | [] => if sep.isEmpty then some ([], []) else none
  | c :: cs =>
    match after? sep (c :: cs) with
    | some rest => some ([], rest)
    | none => (cut? sep cs).map fun (l, r) => (c :: l, r)

def occursIn (pat s : List Char) : Bool := (cut? pat s).isSome

def contains (s pat : String) : Bool := occursIn pat.toList s.toList

/-- Walks the text; `skip` counts the characters of a separator still to be passed over. -/
def splitOnFrom (sep : List Char) : Nat → List Char → List Char → List (List Char)
  | _, part, [] => [part.reverse]
  | skip + 1, part, _ :: cs => splitOnFrom sep skip part cs
  | 0, part, c :: cs =>
    if sep.isPrefixOf (c :: cs) && !sep.isEmpty then
      part.reverse :: splitOnFrom sep (sep.length - 1) [] cs
    else splitOnFrom sep 0 (c :: part) cs

/-- The parts between the occurrences of a separator, taken from the left. -/
def splitOnText (sep s : List Char) : List (List Char) := splitOnFrom sep 0 [] s

def joinWith (sep : List Char) (parts : List (List Char)) : List Char := sep.intercalate parts

def replaceText (pat new s : List Char) : List Char := joinWith new (splitOnText pat s)

/-- The parts between the characters that satisfy `p`. -/
def splitWhere (p : Char → Bool) : List Char → List (List Char)
  | [] => [[]]
  | c :: cs =>
    if p c then [] :: splitWhere p cs
    else match splitWhere p cs with
      | [] => [[c]]
      | part :: parts => (c :: part) :: parts

/-- Removes one carriage return at the end. -/
def dropReturn (line : List Char) : List Char :=
  match line.reverse with
  | '\r' :: rest => rest.reverse
  | _ => line

/-- Lines end at a line feed, with a carriage return before it removed; an empty text after the
last line feed is no line. -/
def lines (s : List Char) : List (List Char) :=
  let parts := splitWhere (· == '\n') s
  let final := parts.getLastD []
  let ended := parts.dropLast.map dropReturn
  if final.isEmpty then ended else ended ++ [final]

def asciiLower (s : List Char) : List Char := s.map Char.toLower

def sameIgnoringCase (a b : List Char) : Bool := asciiLower a == asciiLower b

def lowered (s : String) : String := String.ofList (asciiLower s.toList)

def sameText (a b : String) : Bool := sameIgnoringCase a.toList b.toList

/-- The number of octets of the text in UTF-8. -/
def octets (s : List Char) : Nat := s.foldl (fun n c => n + c.utf8Size) 0

/-- Pads a text with spaces on the right up to a width counted in characters. -/
def padRight (width : Nat) (s : String) : String :=
  s ++ String.ofList (List.replicate (width - s.length) ' ')

def joined (sep : String) (parts : List String) : String := sep.intercalate parts

end RuleExchange.Text
