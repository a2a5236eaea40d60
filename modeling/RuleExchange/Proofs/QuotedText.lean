import RuleExchange.Proofs.QueryTokens
import RuleExchange.Proofs.TextOccurrence

/-! Quoted text and its readers. One writer puts a backslash before each backslash and each quote.
One reader takes whatever follows a backslash, one takes it only when it is a backslash or the
quote, and the cut at a separator merely passes over it. On what the writer wrote they come to
the same, whatever runs of backslashes and quotes the value has. -/

namespace RuleExchange

namespace Text.Quoted

/-- A text that the cut goes through without cutting it is one part. -/
theorem split_of_uncut {sep s : List Char} (h : Uncut sep s) : split sep s = [s] := by
  have hthrough := h [] []
  rw [List.append_nil, List.append_nil] at hthrough
  rw [split, hthrough, splitFrom, List.reverse_reverse]

end Text.Quoted

namespace Query

open Text.Quoted (enclose escape isQuote split split_of_uncut uncut_enclose unescape
  unescape_escape)

/-- A quoted text is one token, which begins where the text does. -/
theorem tokenize_enclose {q : Char} (hq : isQuote q = true) (v : List Char) :
    tokenize (enclose q v) = .ok [⟨.quoted v, enclose q v⟩] := by
  have hend (size fuel : Nat) : tokenizeFrom size fuel [] = .ok [] := by cases fuel <;> rfl
  have hread (size fuel : Nat) := tokenizeFrom_enclose hq size fuel v []
  simp only [List.append_nil] at hread
  rw [tokenize, hread, hend]
  rfl

/-- Whatever the value, each reader of quoted text makes of the written one what it is for: the
value again, one token with that value, and a single part of which no separator is cut out. -/
theorem readers_undo_quoting {q : Char} (hq : isQuote q = true) (v : List Char) :
    unescape (escape q v) = v ∧
    tokenize (enclose q v) = .ok [⟨.quoted v, enclose q v⟩] ∧
    ∀ sep, split sep (enclose q v) = [enclose q v] :=
  ⟨unescape_escape q v, tokenize_enclose hq v, fun sep => split_of_uncut (uncut_enclose sep hq v)⟩

/-- Both quotes and the pipe, with runs of backslashes before a quote and at the end. -/
def tangledValue : List Char := "it's \\\"quoted\\\" | or \\\\'not'\\\\\\".toList

theorem tangled_value_comes_back : isQuote '\'' = true ∧
    unescape (escape '\'' tangledValue) = tangledValue ∧
    tokenize (enclose '\'' tangledValue) =
      .ok [⟨.quoted tangledValue, enclose '\'' tangledValue⟩] ∧
    split ['|'] (enclose '\'' tangledValue) = [enclose '\'' tangledValue] := by
  have hq : isQuote '\'' = true := by decide
  obtain ⟨hvalue, htoken, hpart⟩ := readers_undo_quoting hq tangledValue
  exact ⟨hq, hvalue, htoken, hpart ['|']⟩

end Query

end RuleExchange
