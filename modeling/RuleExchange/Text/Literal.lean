import RuleExchange.Text.Blank

/-! Text shown between quotes in messages. Characters that would not be visible
are written as escapes: the common control characters by a letter, all others by
their number in braces. -/

namespace RuleExchange.Text.Literal

def inRanges (ranges : List (Nat × Nat)) (n : Nat) : Bool := ranges.any fun (a, b) => a ≤ n && n ≤ b

/-- Blocks of combining marks. -/
def combining : List (Nat × Nat) :=
  [(0x300, 0x36F), (0x483, 0x489), (0x591, 0x5BD), (0x5BF, 0x5BF), (0x5C1, 0x5C2),
    (0x5C4, 0x5C5), (0x5C7, 0x5C7), (0x610, 0x61A), (0x64B, 0x65F), (0x670, 0x670),
    (0x6D6, 0x6DC), (0x6DF, 0x6E4), (0x6E7, 0x6E8), (0x6EA, 0x6ED), (0x711, 0x711),
    (0x730, 0x74A), (0x93C, 0x93C), (0x941, 0x948), (0x94D, 0x94D), (0xE31, 0xE31),
    (0xE34, 0xE3A), (0xE47, 0xE4E), (0x1AB0, 0x1AFF), (0x1DC0, 0x1DFF), (0x200C, 0x200C),
    (0x20D0, 0x20F0), (0x302A, 0x302F), (0x3099, 0x309A), (0xFE00, 0xFE0F),
    (0xFE20, 0xFE2F), (0xE0100, 0xE01EF)]

/-- Separators, format characters and private characters, none of which is visible. -/
def invisible : List (Nat × Nat) :=
  [(0, 0x1F), (0x7F, 0xA0), (0xAD, 0xAD), (0x600, 0x605), (0x61C, 0x61C), (0x6DD, 0x6DD),
    (0x70F, 0x70F), (0x890, 0x891), (0x8E2, 0x8E2), (0x1680, 0x1680), (0x180E, 0x180E),
    (0x2000, 0x200F), (0x2028, 0x202F), (0x205F, 0x206F), (0x3000, 0x3000),
    (0xE000, 0xF8FF), (0xFEFF, 0xFEFF), (0xFFF9, 0xFFFB), (0xFFFE, 0xFFFF),
    (0x110BD, 0x110BD), (0x110CD, 0x110CD), (0x13430, 0x1343F), (0x1BCA0, 0x1BCA3),
    (0x1D173, 0x1D17A), (0xE0000, 0x10FFFF)]

def hexDigits (n : Nat) : List Char := Nat.toDigits 16 n

/-- One character between quotes of the kind `quote`. -/
def showChar (quote c : Char) : List Char :=
  if c = quote ∨ c = '\\' then ['\\', c]
  else if c = '\t' then ['\\', 't']
  else if c = '\r' then ['\\', 'r']
  else if c = '\n' then ['\\', 'n']
  else if c.toNat = 0 then ['\\', '0']
  else if inRanges combining c.toNat || inRanges invisible c.toNat then
    ['\\', 'u', '\x7b'] ++ hexDigits c.toNat ++ ['\x7d']
  else [c]

def showText (s : String) : String :=
  String.ofList ('"' :: s.toList.flatMap (showChar '"') ++ ['"'])

/-- Items with a comma and a space between them. -/
def commaList (items : List String) : String := ", ".intercalate items

def showCharacter (c : Char) : String := String.ofList ('\'' :: showChar '\'' c ++ ['\''])

end RuleExchange.Text.Literal
