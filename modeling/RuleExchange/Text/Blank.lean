/-! White space and trimming. A character is blank when it has the White_Space
property; trimming removes blank characters from the ends of a text and leaves
the inside alone. -/

namespace RuleExchange.Text

/-- The characters with the White_Space property. -/
def isBlank (c : Char) : Bool :=
  let n := c.toNat
  (9 ≤ n && n ≤ 13) || n == 0x20 || n == 0x85 || n == 0xA0 || n == 0x1680 ||
    (0x2000 ≤ n && n ≤ 0x200A) || n == 0x2028 || n == 0x2029 || n == 0x202F ||
    n == 0x205F || n == 0x3000

def dropEndWhile (p : Char → Bool) (s : List Char) : List Char :=
  (s.reverse.dropWhile p).reverse

def trimStart (s : List Char) : List Char := s.dropWhile isBlank

def trimEnd (s : List Char) : List Char := dropEndWhile isBlank s

def trim (s : List Char) : List Char := trimEnd (trimStart s)

/-- A text whose characters are all blank. -/
def isBlankText (s : List Char) : Bool := s.all isBlank

def trimmed (s : String) : String := String.ofList (trim s.toList)

def isBlankString (s : String) : Bool := isBlankText s.toList

end RuleExchange.Text
