import RuleExchange.Comment
import RuleExchange.Proofs.TextOccurrence
import Mathlib.Data.List.Basic
import Mathlib.Data.List.Infix
import Mathlib.Data.List.TakeWhile

/-! What stripping takes out of a text. A span goes from an opening mark to the next closing
mark; a line goes when a number sign stands first on it, and then the line breaks of all
other lines are made alike. A text is left as it is, blanks at its ends aside, exactly when it
has none of these. -/

namespace RuleExchange.Comment

open Text (exists_trimmed isBlank Stops trim trim_append_blanks Trimmed)

/-! ### Marks -/

/-- Whether a number sign stands first on a line, blanks aside; `fresh` tells that only blanks stand
before the text on its line. -/
def startsLine : Bool → List Char → Bool
  | _, [] => false
  | fresh, c :: cs => fresh && c == '#' || startsLine (c == '\n' || fresh && isBlank c) cs

def longBreak : List Char := ['\r', '\n']

def HasSpan (start stop s : List Char) : Prop :=
  ∃ a inner z, s = a ++ (start ++ (inner ++ (stop ++ z)))

/-- The text holds something that stripping takes out. -/
def Marked : CommentStyle → List Char → Prop
  | .hash, s => startsLine true s = true ∨ longBreak <:+: trim s
  | .backticks, s => HasSpan fence fence s
  | .block, s => HasSpan opening closing s
  | .jsonKey, _ => False

/-! ### Characters that are no blanks -/

/-- How many characters are no blanks. -/
def solids (s : List Char) : Nat := s.countP fun c => !isBlank c

theorem solids_append (s t : List Char) : solids (s ++ t) = solids s + solids t :=
  List.countP_append

theorem solids_of_blanks {s : List Char} (h : ∀ c ∈ s, isBlank c) : solids s = 0 := by
  simpa [solids, List.countP_eq_zero] using h

theorem solids_trim (s : List Char) : solids (trim s) = solids s := by
  obtain ⟨a, core, z, rfl, ha, hcore, hz⟩ := exists_trimmed s
  rw [Text.trim_between ha hcore hz, solids_append, solids_append, solids_of_blanks ha,
    solids_of_blanks hz]
  omega

/-! ### Spans -/

section Spans

variable {start stop s l r : List Char}

theorem after?_eq_some {pat : List Char} (h : Text.after? pat s = some r) : s = pat ++ r := by
  fun_induction Text.after? pat s with
  | case1 s => simpa using h
  | case2 p ps => cases h
  | case3 ps c cs ih => rw [ih h, List.cons_append]
  | case4 p ps c cs hne => cases h

theorem cut?_eq_some {pat : List Char} (h : Text.cut? pat s = some (l, r)) :
    s = l ++ (pat ++ r) := by
  induction s generalizing l with
  | nil =>
    cases pat with
    | nil =>
      cases h
      rfl
    | cons p ps => cases h
  | cons c cs ih =>
    rw [Text.cut?] at h
    split at h
    · rename_i rest hafter
      cases h
      rw [List.nil_append]
      exact after?_eq_some hafter
    · obtain ⟨⟨l', r'⟩, hcut, he⟩ := Option.map_eq_some_iff.mp h
      cases he
      rw [ih hcut, List.cons_append]

/-- The cut is made at the first occurrence: what follows any occurrence follows the cut. -/
theorem suffix_of_cut? {pat a b : List Char} (hpat : pat ≠ [])
    (h : Text.cut? pat (a ++ (pat ++ b)) = some (l, r)) : b <:+ r := by
  induction a generalizing l with
  | nil =>
    obtain ⟨p, ps, rfl⟩ := List.exists_cons_of_ne_nil hpat
    have hafter := Text.after?_append (p :: ps) b
    rw [List.nil_append, List.cons_append, Text.cut?, ← List.cons_append, hafter] at h
    cases h
    exact List.suffix_rfl
  | cons c a ih =>
    rw [List.cons_append, Text.cut?] at h
    split at h
    · rename_i rest hafter
      cases h
      have he := after?_eq_some hafter
      have hlength := congrArg List.length he
      have hsuffix : b <:+ pat ++ r := by
        rw [← he, ← List.cons_append, ← List.append_assoc]
        exact List.suffix_append _ _
      refine List.suffix_of_suffix_length_le hsuffix (List.suffix_append _ _) ?_
      simp only [List.length_cons, List.length_append] at hlength
      omega
    · obtain ⟨⟨l', r'⟩, hcut, he⟩ := Option.map_eq_some_iff.mp h
      cases he
      exact ih hcut

/-- A text with a span is cut at an opening mark and then at a closing one. -/
theorem exists_cuts (hstart : start ≠ []) (h : HasSpan start stop s) :
    ∃ before rest inner tail, Text.cut? start s = some (before, rest) ∧
      Text.cut? stop rest = some (inner, tail) := by
  obtain ⟨a, inner, z, rfl⟩ := h
  have hopen : Text.cut? start (a ++ (start ++ (inner ++ (stop ++ z)))) ≠ none := fun hnone =>
    Text.cut?_eq_none_iff.mp hnone ⟨a, inner ++ (stop ++ z), by simp⟩
  obtain ⟨⟨before, rest⟩, hcut⟩ := Option.ne_none_iff_exists'.mp hopen
  obtain ⟨w, hw⟩ := suffix_of_cut? hstart hcut
  have hclose : Text.cut? stop rest ≠ none := fun hnone =>
    Text.cut?_eq_none_iff.mp hnone ⟨w ++ inner, z, by rw [← hw]; simp⟩
  obtain ⟨⟨inner', tail⟩, hcut'⟩ := Option.ne_none_iff_exists'.mp hclose
  exact ⟨before, rest, inner', tail, hcut, hcut'⟩

theorem spans_of_not_hasSpan (h : ¬ HasSpan start stop s) (fuel : Nat) :
    spans start stop fuel s = (s, []) := by
  cases fuel with
  | zero => rfl
  | succ fuel =>
    rw [spans]
    split
    · rfl
    · rename_i before rest hopen
      split
      · rfl
      · rename_i inner tail hclose
        refine absurd ⟨before, inner, tail, ?_⟩ h
        rw [cut?_eq_some hopen, cut?_eq_some hclose]

theorem solids_spans_le (start stop : List Char) (fuel : Nat) (s : List Char) :
    solids (spans start stop fuel s).1 ≤ solids s := by
  induction fuel generalizing s with
  | zero => exact Nat.le_refl _
  | succ fuel ih =>
    rw [spans]
    split
    · exact Nat.le_refl _
    · rename_i before rest hopen
      split
      · exact Nat.le_refl _
      · rename_i inner tail hclose
        have htail := ih tail
        have hspace : solids (' ' :: (spans start stop fuel tail).1) =
            solids (spans start stop fuel tail).1 := by simp [solids, isBlank]
        simp only [cut?_eq_some hopen, cut?_eq_some hclose, solids_append, hspace]
        omega

/-- A span that is taken out takes the opening mark with it. -/
theorem solids_spans_lt (hstart : 0 < solids start) (h : HasSpan start stop s) (fuel : Nat) :
    solids (spans start stop (fuel + 1) s).1 < solids s := by
  have hne : start ≠ [] := fun he => by simp [he, solids] at hstart
  obtain ⟨before, rest, inner, tail, hopen, hclose⟩ := exists_cuts hne h
  have htail := solids_spans_le start stop fuel tail
  have hspace : solids (' ' :: (spans start stop fuel tail).1) =
      solids (spans start stop fuel tail).1 := by simp [solids, isBlank]
  rw [spans, hopen]
  simp only [hclose]
  rw [cut?_eq_some hopen, cut?_eq_some hclose]
  simp only [solids_append, hspace]
  omega

theorem stripSpans_eq_iff (hstart : 0 < solids start) :
    stripSpans start stop s = ⟨trim s, []⟩ ↔ ¬ HasSpan start stop s := by
  constructor
  · intro he h
    have hless := solids_spans_lt hstart h s.length
    have htext : trim (spans start stop (s.length + 1) s).1 = trim s := congrArg Stripped.text he
    have hsame := congrArg solids htext
    rw [solids_trim, solids_trim] at hsame
    omega
  · intro h
    rw [stripSpans, spans_of_not_hasSpan h]
    rfl

end Spans

/-! ### Lines -/

section Lines

variable {l r : List Char}

theorem splitWhere_ne_nil (p : Char → Bool) (s : List Char) : Text.splitWhere p s ≠ [] := by
  cases s with
  | nil => simp [Text.splitWhere]
  | cons c cs =>
    rw [Text.splitWhere]
    split
    · simp
    · split <;> simp

theorem lines_append (hl : '\n' ∉ l) (r : List Char) :
    Text.lines (l ++ '\n' :: r) = Text.dropReturn l :: Text.lines r := by
  obtain ⟨part, parts, hparts⟩ := List.exists_cons_of_ne_nil (splitWhere_ne_nil (· == '\n') r)
  simp only [Text.lines, Text.splitWhere_of_notMem hl, hparts, List.dropLast_cons_cons,
    List.map_cons, List.getLastD_cons]
  split <;> rfl

theorem lines_last (hl : '\n' ∉ l) : Text.lines l = if l = [] then [] else [l] := by
  simp [Text.lines, Text.splitWhere_eq_singleton hl]

/-- A text is taken line by line. -/
theorem lines_induction {motive : List Char → Prop} (last : ∀ l, '\n' ∉ l → motive l)
    (line : ∀ l r, '\n' ∉ l → motive r → motive (l ++ '\n' :: r)) (s : List Char) : motive s := by
  induction hn : s.length using Nat.strong_induction_on generalizing s with
  | _ n ih =>
    by_cases hs : '\n' ∈ s
    · obtain ⟨l, r, rfl, hl⟩ := List.eq_append_cons_of_mem hs
      refine line l r hl (ih r.length ?_ r rfl)
      simp only [List.length_append, List.length_cons] at hn
      omega
    · exact last s hs

/-- A line loses a carriage return at its end and nothing else. -/
theorem dropReturn_cases (l : List Char) :
    Text.dropReturn l = l ∧ l.getLast? ≠ some '\r' ∨ l = Text.dropReturn l ++ ['\r'] := by
  rcases List.eq_nil_or_concat l with rfl | ⟨x, c, rfl⟩
  · exact .inl ⟨rfl, by simp⟩
  · by_cases hc : c = '\r'
    · exact .inr (by simp [Text.dropReturn, hc])
    · exact .inl (by simp [Text.dropReturn, hc])

theorem ofLine_cons (c : Char) (l : List Char) :
    ofLine (c :: l) = if c = '#' then some (trim l) else if isBlank c then ofLine l else none := by
  have hsharp : isBlank '#' = false := by decide
  unfold ofLine Text.trimStart
  by_cases hc : c = '#'
  · simp [hc, hsharp]
  · by_cases hb : isBlank c = true <;> simp [hb, hc]

theorem ofLine_append (l : List Char) {z : List Char} (hz : ∀ c ∈ z, isBlank c) :
    ofLine (l ++ z) = ofLine l := by
  induction l with
  | nil =>
    have hnone : Text.trimStart z = [] := List.dropWhile_eq_nil_iff.mpr hz
    rw [List.nil_append, ofLine, hnone]
    rfl
  | cons c l ih => rw [List.cons_append, ofLine_cons, ofLine_cons, ih, trim_append_blanks l hz]

theorem ofLine_dropReturn (l : List Char) : ofLine (Text.dropReturn l) = ofLine l := by
  rcases dropReturn_cases l with ⟨he, -⟩ | he
  · rw [he]
  · conv_rhs => rw [he, ofLine_append _ (Text.forall_mem_of_all (by decide))]

theorem isSome_ofLine_cons (c : Char) (l : List Char) :
    (ofLine (c :: l)).isSome = (c == '#' || isBlank c && (ofLine l).isSome) := by
  rw [ofLine_cons]
  by_cases hc : c = '#'
  · simp [hc]
  · cases hb : isBlank c <;> simp [hc]

theorem startsLine_append (hl : '\n' ∉ l) (fresh : Bool) (r : List Char) :
    startsLine fresh (l ++ '\n' :: r) =
      (fresh && (ofLine l).isSome || startsLine true r) := by
  induction l generalizing fresh with
  | nil => simp [startsLine, ofLine, Text.trimStart]
  | cons c l ih =>
    rw [List.mem_cons, not_or] at hl
    have hc : (c == '\n') = false := by simpa using Ne.symm hl.1
    rw [List.cons_append, startsLine, hc, Bool.false_or, ih hl.2, isSome_ofLine_cons]
    cases fresh <;> simp [Bool.or_assoc]

theorem startsLine_line (hl : '\n' ∉ l) (fresh : Bool) :
    startsLine fresh l = (fresh && (ofLine l).isSome) := by
  induction l generalizing fresh with
  | nil => simp [startsLine, ofLine, Text.trimStart]
  | cons c l ih =>
    rw [List.mem_cons, not_or] at hl
    have hc : (c == '\n') = false := by simpa using Ne.symm hl.1
    rw [startsLine, hc, Bool.false_or, ih hl.2, isSome_ofLine_cons]
    cases fresh <;> simp

/-- A line is taken for a comment exactly when a number sign stands first on it. -/
theorem any_lines (s : List Char) :
    (Text.lines s).any (fun l => (ofLine l).isSome) = startsLine true s := by
  induction s using lines_induction with
  | last l hl =>
    rw [lines_last hl, startsLine_line hl, Bool.true_and]
    split
    · rename_i he
      simp [he, ofLine, Text.trimStart]
    · simp
  | line l r hl ih =>
    rw [lines_append hl, List.any_cons, ih, startsLine_append hl, ofLine_dropReturn,
      Bool.true_and]

end Lines

/-! ### Line breaks -/

/-- The text with each line break of two characters made a line feed. -/
def unified : List Char → List Char
  | '\r' :: '\n' :: cs => '\n' :: unified cs
  | c :: cs => c :: unified cs
  | [] => []

theorem unified_cons {c : Char} {s : List Char} (h : c = '\r' → s.head? ≠ some '\n') :
    unified (c :: s) = c :: unified s := by
  rw [unified]
  rintro cs rfl rfl
  exact h rfl rfl

theorem unified_append {s t : List Char} (h : s.getLast? = some '\r' → t.head? ≠ some '\n') :
    unified (s ++ t) = unified s ++ unified t := by
  fun_induction unified s with
  | case1 cs ih =>
    have hcs : cs.getLast? = some '\r' → t.head? ≠ some '\n' := fun hlast => h (by
      simp [List.getLast?_cons, hlast])
    rw [List.cons_append, List.cons_append, unified, ih hcs, List.cons_append]
  | case2 c cs hne ih =>
    have hcs : cs.getLast? = some '\r' → t.head? ≠ some '\n' := fun hlast => h (by
      simp [List.getLast?_cons, hlast])
    have hc : c = '\r' → (cs ++ t).head? ≠ some '\n' := by
      rintro rfl
      cases cs with
      | nil => exact h rfl
      | cons d ds =>
        intro hd
        cases hd
        exact hne ds rfl rfl
    rw [List.cons_append, unified_cons hc, ih hcs, List.cons_append]
  | case3 => rfl

theorem unified_of_notMem {s : List Char} (h : '\n' ∉ s) : unified s = s := by
  fun_induction unified s with
  | case1 cs ih => simp at h
  | case2 c cs hne ih =>
    rw [List.mem_cons, not_or] at h
    rw [ih h.2]
  | case3 => rfl

theorem unified_eq_self_iff (s : List Char) : unified s = s ↔ ¬ longBreak <:+: s := by
  fun_induction unified s with
  | case1 cs ih =>
    have hlong : longBreak <:+: '\r' :: '\n' :: cs := ⟨[], cs, rfl⟩
    simp [hlong]
  | case2 c cs hne ih =>
    have hfirst : ¬ longBreak <+: c :: cs := by
      rintro ⟨rest, he⟩
      cases he
      exact hne rest rfl rfl
    rw [List.infix_cons_iff, or_iff_right hfirst, ← ih, List.cons_inj_right]
  | case3 => simp [longBreak]

theorem unified_line {l : List Char} (hl : '\n' ∉ l) (r : List Char) :
    unified (l ++ '\n' :: r) = Text.dropReturn l ++ '\n' :: unified r := by
  rcases dropReturn_cases l with ⟨he, hlast⟩ | he
  · rw [unified_append (absurd · hlast), unified_of_notMem hl, he]
    rfl
  · have hd : '\n' ∉ Text.dropReturn l := fun hmem =>
      hl (he ▸ List.mem_append_left _ hmem)
    conv_lhs => rw [he]
    rw [List.append_assoc, unified_append (by simp), unified_of_notMem hd]
    rfl

/-- The lines of a text, put together again, are the text with unified line breaks, but for a line
feed at its end. -/
theorem unified_eq_lines (s : List Char) :
    ∃ z, (∀ c ∈ z, isBlank c) ∧ unified s = Text.joinWith ['\n'] (Text.lines s) ++ z := by
  induction s using lines_induction with
  | last l hl =>
    refine ⟨[], by simp, ?_⟩
    rw [lines_last hl, unified_of_notMem hl]
    split
    · rename_i he
      rw [he]
      rfl
    · simp [Text.joinWith_singleton]
  | line l r hl ih =>
    obtain ⟨z, hz, hr⟩ := ih
    rw [unified_line hl, lines_append hl, hr]
    cases hlines : Text.lines r with
    | nil =>
      refine ⟨'\n' :: z, List.forall_mem_cons.mpr ⟨by decide, hz⟩, ?_⟩
      simp [Text.joinWith]
    | cons m ms => exact ⟨z, hz, by simp [Text.joinWith_cons_cons]⟩

theorem blank_of_mem_unified {s : List Char} (h : ∀ c ∈ s, isBlank c) :
    ∀ c ∈ unified s, isBlank c := by
  fun_induction unified s with
  | case1 cs ih =>
    simp only [List.forall_mem_cons] at h ⊢
    exact ⟨h.2.1, ih h.2.2⟩
  | case2 c cs hne ih =>
    rw [List.forall_mem_cons] at h ⊢
    exact ⟨h.1, ih h.2⟩
  | case3 => exact h

/-- Unifying line breaks leaves the ends of a trimmed text alone. -/
theorem trimmed_unified {s : List Char} (h : Trimmed s) : Trimmed (unified s) := by
  constructor
  · cases s with
    | nil => exact Text.stops_nil _
    | cons c cs =>
      have hc : isBlank c = false := h.1 c rfl
      have hreturn : c ≠ '\r' := by
        rintro rfl
        revert hc
        decide
      rw [unified_cons (absurd · hreturn)]
      exact Text.stops_cons hc _
  · rcases List.eq_nil_or_concat s with rfl | ⟨x, d, rfl⟩
    · exact Text.stops_nil _
    · have hd : isBlank d = false := h.2 d (by simp)
      have hfeed : d ≠ '\n' := by
        rintro rfl
        revert hd
        decide
      have hlast : unified [d] = [d] := unified_of_notMem (by simpa using Ne.symm hfeed)
      rw [List.concat_eq_append, unified_append (by simpa using fun _ => hfeed), hlast,
        List.reverse_append]
      exact Text.stops_cons hd _

/-- Unifying line breaks and trimming come to the same in either order. -/
theorem trim_unified (s : List Char) : trim (unified s) = unified (trim s) := by
  obtain ⟨a, core, z, rfl, ha, hcore, hz⟩ := exists_trimmed s
  rw [Text.trim_between ha hcore hz]
  by_cases hnil : core = []
  · -- nothing but blanks
    have hall : ∀ c ∈ a ++ core ++ z, isBlank c := by
      rw [hnil, List.append_nil]
      exact fun c hc => (List.mem_append.mp hc).elim (ha c) (hz c)
    have hempty := trim_append_blanks [] (blank_of_mem_unified hall)
    rw [List.nil_append] at hempty
    rw [hempty, hnil]
    rfl
  · have hfirst : core.head? ≠ some '\n' := fun he => absurd (hcore.1 _ he) (by decide)
    have hlast : (a ++ core).getLast? ≠ some '\r' := by
      rw [List.getLast?_append_of_ne_nil _ hnil, ← List.head?_reverse]
      exact fun he => absurd (hcore.2 _ he) (by decide)
    rw [unified_append (absurd · hlast), unified_append fun _ => hfirst]
    exact Text.trim_between (blank_of_mem_unified ha) (trimmed_unified hcore)
      (blank_of_mem_unified hz)

theorem stripHash_eq_iff (s : List Char) :
    stripHash s = ⟨trim s, []⟩ ↔ ¬ (startsLine true s = true ∨ longBreak <:+: trim s) := by
  have hcomments : (Text.lines s).filterMap ofLine = [] ↔ startsLine true s = false := by
    rw [← any_lines]
    simp [List.filterMap_eq_nil_iff, List.any_eq_false]
  have htext : trim (Text.joinWith ['\n'] (Text.lines s)) = trim s ↔ ¬ longBreak <:+: trim s := by
    obtain ⟨z, hz, he⟩ := unified_eq_lines s
    rw [← trim_append_blanks _ hz, ← he, trim_unified, unified_eq_self_iff]
  rw [not_or, Bool.not_eq_true, ← hcomments, ← htext, stripHash, Stripped.mk.injEq, and_comm]
  refine and_congr_right fun hnone => ?_
  have hkept : (Text.lines s).filter (fun l => (ofLine l).isNone) = Text.lines s :=
    List.filter_eq_self.mpr fun l hl =>
      Option.isNone_iff_eq_none.mpr (List.filterMap_eq_nil_iff.mp hnone l hl)
  rw [hkept]

/-- Stripping trims a text and does nothing else to it exactly when the text holds nothing that is
marked as a comment. -/
theorem strip_eq_trim_iff (style : CommentStyle) (s : List Char) :
    strip style s = ⟨trim s, []⟩ ↔ ¬ Marked style s := by
  cases style with
  | hash => exact stripHash_eq_iff s
  | backticks => exact stripSpans_eq_iff (by decide)
  | block => exact stripSpans_eq_iff (by decide)
  | jsonKey => simp [strip, Marked]

/-! ### Comments inside a text -/

/-- The text holds a whole comment, wherever it stands on a line. -/
def Commented : CommentStyle → List Char → Prop
  | .hash, s => startsLine false s = true
  | .backticks, s => HasSpan fence fence s
  | .block, s => HasSpan opening closing s
  | .jsonKey, _ => False

section Commented

variable {style : CommentStyle} {s : List Char} {first : Bool}

theorem startsLine_mono {later : Bool} (hle : first = true → later = true)
    (h : startsLine first s = true) : startsLine later s = true := by
  induction s generalizing first later with
  | nil => cases h
  | cons c cs ih =>
    simp only [startsLine, Bool.or_eq_true, Bool.and_eq_true] at h ⊢
    rcases h with ⟨hfirst, hc⟩ | hrest
    · exact .inl ⟨hle hfirst, hc⟩
    · refine .inr (ih (fun hbreak => ?_) hrest)
      simp only [Bool.or_eq_true, Bool.and_eq_true] at hbreak ⊢
      exact hbreak.imp_right (And.imp_left hle)

theorem startsLine_prepend (h : startsLine false s = true) (a : List Char) :
    startsLine first (a ++ s) = true := by
  induction a generalizing first with
  | nil => exact startsLine_mono (fun he => absurd he (by decide)) h
  | cons c a ih => rw [List.cons_append, startsLine, ih, Bool.or_true]

theorem startsLine_extend (h : startsLine first s = true) (z : List Char) :
    startsLine first (s ++ z) = true := by
  induction s generalizing first with
  | nil => cases h
  | cons c cs ih =>
    rw [startsLine, Bool.or_eq_true] at h
    rw [List.cons_append, startsLine, Bool.or_eq_true]
    exact h.imp_right ih

theorem mem_of_startsLine (h : startsLine first s = true) : '#' ∈ s := by
  induction s generalizing first with
  | nil => cases h
  | cons c cs ih =>
    simp only [startsLine, Bool.or_eq_true, Bool.and_eq_true, beq_iff_eq] at h
    rcases h with ⟨-, rfl⟩ | hrest
    · exact List.mem_cons_self
    · exact List.mem_cons_of_mem _ (ih hrest)

theorem HasSpan.mono {start stop t : List Char} (h : HasSpan start stop s) (hs : s <:+: t) :
    HasSpan start stop t := by
  obtain ⟨b, inner, y, rfl⟩ := h
  obtain ⟨a, z, rfl⟩ := hs
  exact ⟨a ++ b, inner, y ++ z, by simp⟩

theorem startsLine_marked {p : Char → Bool}
    (hp : ∀ c, p c = true → isBlank c = false ∧ c ≠ '#') (h : startsLine first s = true) :
    startsLine first (Text.marked p s) = true := by
  have hbackslash : isBlank '\\' = false := by decide
  induction s generalizing first with
  | nil => cases h
  | cons c cs ih =>
    rw [Text.marked_cons]
    split
    · rename_i hc
      obtain ⟨hblank, hsharp⟩ := hp c hc
      have hfeed : (c == '\n') = false := by
        refine beq_eq_false_iff_ne.mpr ?_
        rintro rfl
        revert hblank
        decide
      have hrest : startsLine false cs = true := by
        simpa [startsLine, hblank, hsharp, hfeed] using h
      simp [startsLine, hblank, hfeed, hbackslash, ih hrest]
    · rw [startsLine, Bool.or_eq_true] at h
      rw [List.singleton_append, startsLine, Bool.or_eq_true]
      exact h.imp_right ih

/-- The characters that comments are marked with. -/
def signs : List Char := ['#', '\x60', '/', '*']

/-- Backslashes before other characters leave a comment in the text. -/
theorem Commented.escaped {p : Char → Bool}
    (hp : ∀ c, p c = true → isBlank c = false ∧ c ∉ signs) (h : Commented style s) :
    Commented style (Text.marked p s) := by
  have hplain : ∀ c ∈ signs, p c = false := fun c hc =>
    Bool.eq_false_iff.mpr fun hmark => (hp c hmark).2 hc
  have happend (x y : List Char) :
      Text.marked p (x ++ y) = Text.marked p x ++ Text.marked p y := List.flatMap_append
  have hspan {start stop : List Char} (hstart : Text.marked p start = start)
      (hstop : Text.marked p stop = stop) (hs : HasSpan start stop s) :
      HasSpan start stop (Text.marked p s) := by
    obtain ⟨a, inner, z, rfl⟩ := hs
    exact ⟨Text.marked p a, Text.marked p inner, Text.marked p z, by
      simp only [happend, hstart, hstop]⟩
  have htick := hplain '\x60' (by decide)
  have hslash := hplain '/' (by decide)
  have hstar := hplain '*' (by decide)
  cases style with
  | hash =>
    refine startsLine_marked (fun c hc => ⟨(hp c hc).1, ?_⟩) h
    rintro rfl
    exact (hp _ hc).2 (by decide)
  | backticks =>
    have hfence : Text.marked p fence = fence := by simp [Text.marked, fence, htick]
    exact hspan hfence hfence h
  | block =>
    exact hspan (by simp [Text.marked, opening, hslash, hstar])
      (by simp [Text.marked, closing, hslash, hstar]) h
  | jsonKey => exact h

/-- A comment in a part of a text is a comment in the text. -/
theorem Commented.marked {t : List Char} (h : Commented style s) (hs : s <:+: t) :
    Marked style t := by
  cases style with
  | hash =>
    obtain ⟨a, z, rfl⟩ := hs
    rw [List.append_assoc]
    exact .inl (startsLine_prepend (startsLine_extend h z) a)
  | backticks => exact HasSpan.mono h hs
  | block => exact HasSpan.mono h hs
  | jsonKey => exact h

end Commented

end RuleExchange.Comment
