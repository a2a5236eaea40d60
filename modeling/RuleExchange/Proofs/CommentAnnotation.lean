import RuleExchange.Proofs.CommentStripping
import RuleExchange.Proofs.TextReplacement

/-! Comments that are put behind a text come off again. A line is made clean before: it cannot end
the comment, cannot open another one and is not cut in two. So the text is left as it was
without them, every line comes back as one comment, and a title in the first line is found. -/

namespace RuleExchange.Comment

open Text (exists_trimmed isBlank joinWith replaceText splitWhere trim trim_append_blanks
  trim_blanks_append)

/-! ### Clean lines -/

theorem notMem_sanitize {c : Char} (hc : c = '\n' ∨ c = ';') (l : List Char) : c ∉ sanitize l := by
  intro h
  rcases Text.mem_replaceText (by decide) h with h | h
  · rcases Text.mem_replaceText (by decide) h with h | h
    · obtain ⟨d, -, hd⟩ := List.mem_map.mp h
      split at hd
      · rcases hc with rfl | rfl <;> exact absurd hd (by decide)
      · rename_i hnot
        exact hnot (hd ▸ hc)
    · rcases hc with rfl | rfl <;> exact absurd h (by decide)
  · rcases hc with rfl | rfl <;> exact absurd h (by decide)

theorem not_fence_sanitize (l : List Char) : ¬ fence <:+: sanitize l := by
  intro h
  have hflat := Text.infix_of_infix_replaceText (by decide)
    (Text.forall_mem_of_all (by decide)) h
  revert hflat
  refine Text.not_infix_replaceText (by decide) (by decide) (fun t ht => ?_) _
  rcases (Text.infix_append_cons_iff (s := []) (by decide)).mp ht with hnil | ht
  · exact absurd (List.infix_nil.mp hnil) (by decide)
  · exact ht

theorem not_closing_sanitize (l : List Char) : ¬ closing <:+: sanitize l := by
  refine Text.not_infix_replaceText (by decide) (by decide) (fun t ht => ?_) _
  -- the blank in the replacement keeps its star and its slash apart
  rcases (Text.infix_append_cons_iff (s := ['*']) (by decide)).mp ht with hstar | ht
  · exact absurd hstar (by decide)
  · rcases List.infix_cons_iff.mp ht with hfirst | ht
    · exact absurd (List.cons_prefix_cons.mp hfirst).1 (by decide)
    · exact ht

theorem getLast?_sanitize {l : List Char} (h : (sanitize l).getLast? = some '\x60') :
    l.getLast? = some '\x60' := by
  have hflat := Text.getLast?_replaceText (by decide) (by decide)
    (Text.getLast?_replaceText (by decide) (by decide) h)
  rw [List.getLast?_map, Option.map_eq_some_iff] at hflat
  obtain ⟨d, hd, he⟩ := hflat
  split at he
  · exact absurd he (by decide)
  · rw [hd, he]

/-- The word before a title is clean and stays apart from the title. -/
theorem sanitize_name (t : List Char) :
    sanitize ("name: ".toList ++ t) = "name: ".toList ++ sanitize t := by
  have hword : ("name: ".toList.map fun c => if c = '\n' ∨ c = ';' then ',' else c) =
      "name: ".toList := by decide
  rw [sanitize, List.map_append, hword, fence, closing, Text.replaceText_append (by decide),
    Text.replaceText_append (by decide)]
  rfl

/-! ### Joined lines -/

variable {parts : List (List Char)}

theorem not_infix_joined {pat : List Char} (hne : pat ≠ []) (hsep : ∀ c ∈ [';', ' '], c ∉ pat)
    (h : ∀ l ∈ parts, ¬ pat <:+: l) : ¬ pat <:+: joinWith [';', ' '] parts := by
  induction parts with
  | nil => simpa [joinWith] using hne
  | cons x rest ih =>
    rw [List.forall_mem_cons] at h
    cases rest with
    | nil => simpa [Text.joinWith_singleton] using h.1
    | cons y rest =>
      rw [Text.joinWith_cons_cons, List.cons_append, Text.infix_append_cons_iff (hsep _ (by simp)),
        not_or]
      refine ⟨h.1, fun hin => ?_⟩
      rcases (Text.infix_append_cons_iff (s := []) (hsep _ (by simp))).mp hin with hnil | hin
      · exact hne (List.infix_nil.mp hnil)
      · exact ih h.2 hin

theorem getLast?_joined {x : Char} (h : (joinWith [';', ' '] parts).getLast? = some x) :
    x = ' ' ∨ ∃ l ∈ parts.getLast?, l.getLast? = some x := by
  induction parts with
  | nil => simp [joinWith] at h
  | cons y rest ih =>
    cases rest with
    | nil => exact .inr ⟨y, rfl, by simpa [Text.joinWith_singleton] using h⟩
    | cons z rest =>
      rw [Text.joinWith_cons_cons, ← List.append_assoc, List.getLast?_append] at h
      cases hlast : (joinWith [';', ' '] (z :: rest)).getLast? with
      | none =>
        rw [hlast] at h
        exact .inl (by simpa [eq_comm] using h)
      | some d =>
        rw [hlast] at h
        obtain hblank | hin := ih (hlast.trans h)
        · exact .inl hblank
        · exact .inr (by rwa [List.getLast?_cons_cons])

/-- Cut at the semicolons, lines that have none come back, but for blanks around them. -/
theorem map_trim_splitWhere {p : Char → Bool} (hsemi : p ';' = true) (hspace : p ' ' = false)
    (hne : parts ≠ []) (h : ∀ l ∈ parts, ∀ c ∈ l, p c = false) {a z : List Char}
    (ha : ∀ c ∈ a, isBlank c = true ∧ p c = false) (hz : ∀ c ∈ z, isBlank c = true ∧ p c = false) :
    (splitWhere p (a ++ joinWith [';', ' '] parts ++ z)).map trim = parts.map trim := by
  induction parts generalizing a with
  | nil => exact absurd rfl hne
  | cons x rest ih =>
    rw [List.forall_mem_cons] at h
    have hfirst : ∀ c ∈ a ++ x, p c = false := fun c hc =>
      (List.mem_append.mp hc).elim (fun hc => (ha c hc).2) (h.1 c)
    have htrim : trim (a ++ x) = trim x := trim_blanks_append (fun c hc => (ha c hc).1) x
    cases rest with
    | nil =>
      have hall : ∀ c ∈ a ++ x ++ z, p c = false := fun c hc =>
        (List.mem_append.mp hc).elim (hfirst c) fun hc => (hz c hc).2
      rw [Text.joinWith_singleton, Text.splitWhere_eq_singleton_of_forall_not hall,
        List.map_singleton, trim_append_blanks _ fun c hc => (hz c hc).1, htrim]
      rfl
    | cons y rest =>
      have hcut : a ++ joinWith [';', ' '] (x :: y :: rest) ++ z =
          a ++ x ++ ';' :: ([' '] ++ joinWith [';', ' '] (y :: rest) ++ z) := by
        rw [Text.joinWith_cons_cons]
        simp
      rw [hcut, Text.splitWhere_of_forall_not hfirst hsemi, List.map_cons, htrim,
        ih (by simp) h.2 (by simpa [isBlank] using hspace)]
      rfl

/-! ### A span behind a text -/

/-- What is read from the lines in a span. -/
def spanItems (parts : List (List Char)) : List (List Char) :=
  (parts.map fun l => trim ((trim l).dropWhile (· == '*'))).filter fun c => !c.isEmpty

theorem ofSpan_joined (hne : parts ≠ []) (h : ∀ l ∈ parts, '\n' ∉ l ∧ ';' ∉ l) {a z : List Char}
    (ha : ∀ c ∈ a, c = ' ') (hz : ∀ c ∈ z, c = ' ') :
    ofSpan (a ++ joinWith [';', ' '] parts ++ z) = spanItems parts := by
  have hblank {s : List Char} (hs : ∀ c ∈ s, c = ' ') :
      ∀ c ∈ s, isBlank c = true ∧ (c == '\n' || c == ';') = false := by
    intro c hc
    rw [hs c hc]
    decide
  have hparts : ∀ l ∈ parts, ∀ c ∈ l, (c == '\n' || c == ';') = false := by
    intro l hl c hc
    obtain ⟨hfeed, hsemi⟩ := h l hl
    have hc1 : c ≠ '\n' := fun he => hfeed (he ▸ hc)
    have hc2 : c ≠ ';' := fun he => hsemi (he ▸ hc)
    simp [hc1, hc2]
  have hmap := map_trim_splitWhere (p := fun c => c == '\n' || c == ';') (by decide) (by decide)
    hne hparts (hblank ha) (hblank hz)
  have hafter := congrArg (List.map fun l => trim (l.dropWhile (· == '*'))) hmap
  simp only [List.map_map, Function.comp_def] at hafter
  rw [ofSpan, hafter, spanItems]

theorem spans_nil {start : List Char} (hstart : start ≠ []) (stop : List Char) (fuel : Nat) :
    spans start stop fuel [] = ([], []) := by
  refine spans_of_not_hasSpan ?_ fuel
  rintro ⟨a, inner, z, he⟩
  simp [hstart] at he

/-- A span behind a text, after some blanks, is what is taken out, when its marks occur nowhere
earlier. -/
theorem stripSpans_behind {start stop content gap inner : List Char} (hgap : ∀ c ∈ gap, isBlank c)
    (hopen : ¬ start <:+: content ++ gap ++ start.dropLast)
    (hclose : ¬ stop <:+: inner ++ stop.dropLast) :
    stripSpans start stop (content ++ gap ++ (start ++ (inner ++ stop))) =
      ⟨trim content, ofSpan inner⟩ := by
  have hstart : start ≠ [] := fun he => hopen (he ▸ List.nil_infix)
  have hend := Text.cut?_append hclose []
  rw [List.append_nil] at hend
  have hspace : ∀ c ∈ gap ++ [' '], isBlank c := fun c hc =>
    (List.mem_append.mp hc).elim (hgap c) fun hc => List.mem_singleton.mp hc ▸ rfl
  rw [stripSpans, spans, Text.cut?_append hopen]
  simp only [hend, spans_nil hstart]
  rw [List.append_assoc, trim_append_blanks _ hspace]
  simp

/-! ### Lines behind a text -/

/-- A text that goes on behind a line feed has the same lines; only its last one is now ended. -/
theorem exists_lines (s : List Char) : ∃ ls l,
    Text.lines s = ls ++ (if l = [] then [] else [l]) ∧
      ∀ r, Text.lines (s ++ '\n' :: r) = ls ++ Text.dropReturn l :: Text.lines r := by
  induction s using lines_induction with
  | last l hl => exact ⟨[], l, lines_last hl, fun r => lines_append hl r⟩
  | line m s hm ih =>
    obtain ⟨ls, l, hlines, happend⟩ := ih
    refine ⟨Text.dropReturn m :: ls, l, ?_, fun r => ?_⟩
    · rw [lines_append hm, hlines, List.cons_append]
    · rw [List.append_assoc, List.cons_append, lines_append hm, happend, List.cons_append]

/-- Lines that are joined are, between blanks, lines that are all ended. -/
theorem trim_joinWith (ls : List (List Char)) :
    trim (joinWith ['\n'] ls) = trim (ls.flatMap (· ++ ['\n'])) := by
  cases ls with
  | nil => rfl
  | cons l ls =>
    have hend : (l :: ls).flatMap (· ++ ['\n']) = joinWith ['\n'] (l :: ls) ++ ['\n'] := by
      rw [Text.joinWith_cons]
      induction ls generalizing l with
      | nil => simp
      | cons m ls ih => simpa using ih m
    rw [hend, trim_append_blanks _ (Text.forall_mem_of_all (by decide))]

/-- The lines of a comment, each behind a number sign. -/
def noteText (parts : List (List Char)) : List Char :=
  joinWith ['\n'] (parts.map fun l => '#' :: ' ' :: l)

theorem map_ofLine_noteText (h : ∀ l ∈ parts, '\n' ∉ l) :
    (Text.lines (noteText parts)).map ofLine = parts.map fun l => some (trim l) := by
  have hline (l : List Char) : ofLine ('#' :: ' ' :: l) = some (trim l) := by
    rw [ofLine_cons, if_pos rfl]
    exact congrArg some (trim_blanks_append (a := [' ']) (Text.forall_mem_of_all (by decide)) l)
  induction parts with
  | nil => rfl
  | cons x rest ih =>
    rw [List.forall_mem_cons] at h
    have hx : '\n' ∉ '#' :: ' ' :: x := by simpa using h.1
    cases rest with
    | nil =>
      rw [noteText, List.map_singleton, Text.joinWith_singleton, lines_last hx,
        if_neg (List.cons_ne_nil _ _), List.map_singleton, hline]
      rfl
    | cons y rest =>
      have hcut : noteText (x :: y :: rest) = '#' :: ' ' :: x ++ '\n' :: noteText (y :: rest) :=
        Text.joinWith_cons_cons _ _ _ _
      rw [hcut, lines_append hx, List.map_cons, ofLine_dropReturn, hline, ih h.2]
      rfl

/-- Between blanks, it does not matter whether the last line of a text is ended. -/
theorem trim_last (a l : List Char) :
    trim (a ++ (Text.dropReturn l ++ ['\n'])) =
      trim (a ++ (if l = [] then [] else [l]).flatMap (· ++ ['\n'])) := by
  have hdrop : trim (a ++ (Text.dropReturn l ++ ['\n'])) = trim (a ++ l) := by
    rw [← List.append_assoc, trim_append_blanks _ (Text.forall_mem_of_all (by decide))]
    rcases dropReturn_cases l with ⟨he, -⟩ | he
    · rw [he]
    · conv_rhs => rw [he, ← List.append_assoc, trim_append_blanks _
        (Text.forall_mem_of_all (by decide))]
  rw [hdrop]
  split
  · rename_i hnil
    simp [hnil]
  · rw [List.flatMap_singleton, ← List.append_assoc,
      trim_append_blanks (a ++ l) (Text.forall_mem_of_all (by decide))]

/-- Lines behind number signs add a comment each and leave all else as it was. -/
theorem stripHash_behind (content : List Char) (h : ∀ l ∈ parts, '\n' ∉ l) :
    stripHash (content ++ '\n' :: noteText parts) =
      ⟨(stripHash content).text, (stripHash content).comments ++ parts.map trim⟩ := by
  obtain ⟨ls, l, hlines, happend⟩ := exists_lines content
  have hnotes := map_ofLine_noteText h
  have hcomments : (Text.lines (noteText parts)).filterMap ofLine = parts.map trim := by
    simpa [List.filterMap_map, Function.comp_def] using congrArg (List.filterMap id) hnotes
  have hkept : (Text.lines (noteText parts)).filter (fun l => (ofLine l).isNone) = [] := by
    rw [List.filter_eq_nil_iff]
    intro m hm
    obtain ⟨x, -, hx⟩ := List.mem_map.mp (hnotes ▸ List.mem_map_of_mem (f := ofLine) hm)
    simp [← hx]
  have hempty : ofLine [] = none := rfl
  rw [stripHash, stripHash, Stripped.mk.injEq, happend, hlines]
  constructor
  · rw [trim_joinWith, trim_joinWith, List.filter_append, List.filter_append, List.filter_cons,
      hkept, ofLine_dropReturn, List.flatMap_append, List.flatMap_append]
    cases hl : ofLine l with
    | none =>
      have hlast : (if l = [] then [] else [l]).filter (fun l => (ofLine l).isNone) =
          if l = [] then [] else [l] := by
        split <;> simp [hl]
      rw [hlast, Option.isNone_none, if_pos rfl, List.flatMap_singleton, trim_last]
    | some c =>
      have hlast : (if l = [] then [] else [l]).filter (fun l => (ofLine l).isNone) = [] := by
        split <;> simp [hl]
      simp [hlast]
  · rw [List.filterMap_append, List.filterMap_append, List.filterMap_cons, hcomments,
      ofLine_dropReturn, List.append_assoc]
    congr 1
    by_cases hl : l = []
    · simp [hl, hempty]
    · cases hcomment : ofLine l <;> simp [hl, hcomment]

/-! ### Annotations -/

/-- Nothing in the text or in the lines runs into the comment that is put behind the text. -/
def Parted : CommentStyle → List Char → List (List Char) → Prop
  | .hash, _, _ => True
  | .backticks, content, lines =>
    ¬ fence <:+: content ∧ ∀ l ∈ lines.getLast?, l.getLast? ≠ some '\x60'
  | .block, content, _ => ¬ opening <:+: content
  | .jsonKey, _, _ => False

/-- What lines are read back as, when they have been put behind a text. -/
def items : CommentStyle → List (List Char) → List (List Char)
  | .hash, lines => lines.map fun l => trim (sanitize l)
  | .backticks, lines | .block, lines =>
    (lines.map fun l => trim ((trim (sanitize l)).dropWhile (· == '*'))).filter fun c =>
      !c.isEmpty
  | .jsonKey, _ => []

section Annotate

variable {style : CommentStyle} {content : List Char} {lines : List (List Char)}

theorem strip_of_parted (hs : style ≠ .hash) (h : Parted style content lines) :
    strip style content = ⟨trim content, []⟩ := by
  rw [strip_eq_trim_iff]
  have hspan {start stop : List Char} (hnot : ¬ start <:+: content) :
      ¬ HasSpan start stop content := by
    rintro ⟨a, inner, z, he⟩
    exact hnot ⟨a, inner ++ (stop ++ z), by rw [he]; simp⟩
  cases style with
  | hash => exact absurd rfl hs
  | backticks => exact hspan h.1
  | block => exact hspan h
  | jsonKey => exact h.elim

theorem clean_lines (lines : List (List Char)) :
    ∀ l ∈ lines.map sanitize, '\n' ∉ l ∧ ';' ∉ l := by
  rintro _ hl
  obtain ⟨l, -, rfl⟩ := List.mem_map.mp hl
  exact ⟨notMem_sanitize (.inl rfl) l, notMem_sanitize (.inr rfl) l⟩

theorem spanItems_map_sanitize (hs : style = .backticks ∨ style = .block)
    (lines : List (List Char)) : spanItems (lines.map sanitize) = items style lines := by
  rw [spanItems, List.map_map]
  rcases hs with rfl | rfl <;> rfl

/-- Three backticks are not made up of the end of the lines and the mark behind them. -/
theorem not_fence_joined (h : ∀ l ∈ lines.getLast?, l.getLast? ≠ some '\x60') :
    ¬ fence <:+: joinWith [';', ' '] (lines.map sanitize) ++ fence.dropLast := by
  have hin : ¬ fence <:+: joinWith [';', ' '] (lines.map sanitize) := by
    refine not_infix_joined (by decide) (Text.forall_mem_of_all (by decide)) fun l hl => ?_
    obtain ⟨l, -, rfl⟩ := List.mem_map.mp hl
    exact not_fence_sanitize l
  have hlast : (joinWith [';', ' '] (lines.map sanitize)).getLast? ≠ some '\x60' := by
    intro he
    rcases getLast?_joined he with hblank | ⟨l, hl, hend⟩
    · exact absurd hblank (by decide)
    · rw [List.getLast?_map] at hl
      obtain ⟨m, hm, rfl⟩ := Option.map_eq_some_iff.mp hl
      exact h m hm (getLast?_sanitize hend)
  rcases List.eq_nil_or_concat (joinWith [';', ' '] (lines.map sanitize)) with hnil | ⟨a, d, he⟩
  · rw [hnil]
    decide
  · rw [he] at hin hlast ⊢
    have hd : d ∉ fence := by
      intro hmem
      have hd : d = '\x60' := by simpa [fence] using hmem
      exact hlast (by simp [hd])
    rw [List.concat_eq_append, List.append_assoc, List.singleton_append,
      Text.infix_append_cons_iff hd, not_or]
    refine ⟨fun ha => hin (ha.trans ?_), by decide⟩
    exact List.concat_eq_append ▸ (List.prefix_append a [d]).isInfix

theorem strip_annotate_backticks (hne : lines ≠ []) (h : Parted .backticks content lines) :
    strip .backticks (annotate .backticks content lines) =
      ⟨trim content, items .backticks lines⟩ := by
  obtain ⟨hcontent, hlast⟩ := h
  have hopen : ¬ fence <:+: content ++ [' '] ++ fence.dropLast := by
    rw [List.append_assoc, List.singleton_append, Text.infix_append_cons_iff (by decide), not_or]
    exact ⟨hcontent, by decide⟩
  have htext : annotate .backticks content lines =
      content ++ [' '] ++ (fence ++ (joinWith [';', ' '] (lines.map sanitize) ++ fence)) := by
    simp [annotate, hne]
  have hparts : lines.map sanitize ≠ [] := by simpa using hne
  have hitems := ofSpan_joined hparts (clean_lines lines) (a := []) (z := []) (by simp) (by simp)
  rw [List.nil_append, List.append_nil, spanItems_map_sanitize (.inl rfl)] at hitems
  rw [strip, htext, stripSpans_behind (Text.forall_mem_of_all (by decide)) hopen
    (not_fence_joined hlast), hitems]

theorem strip_annotate_block (hne : lines ≠ []) (h : Parted .block content lines) :
    strip .block (annotate .block content lines) = ⟨trim content, items .block lines⟩ := by
  have hopen : ¬ opening <:+: content ++ ['\n'] ++ opening.dropLast := by
    rw [List.append_assoc, List.singleton_append, Text.infix_append_cons_iff (by decide), not_or]
    exact ⟨h, by decide⟩
  have hin : ¬ closing <:+: joinWith [';', ' '] (lines.map sanitize) := by
    refine not_infix_joined (by decide) (Text.forall_mem_of_all (by decide)) fun l hl => ?_
    obtain ⟨l, -, rfl⟩ := List.mem_map.mp hl
    exact not_closing_sanitize l
  have hclose : ¬ closing <:+:
      [' '] ++ joinWith [';', ' '] (lines.map sanitize) ++ [' '] ++ closing.dropLast := by
    rw [List.append_assoc _ [' '], List.singleton_append (x := ' ') (l := closing.dropLast),
      Text.infix_append_cons_iff (by decide), not_or]
    refine ⟨fun hspaced => ?_, by decide⟩
    rcases (Text.infix_append_cons_iff (s := []) (by decide)).mp hspaced with hnil | hin'
    · exact absurd (List.infix_nil.mp hnil) (by decide)
    · exact hin hin'
  have htext : annotate .block content lines = content ++ ['\n'] ++
      (opening ++ ([' '] ++ joinWith [';', ' '] (lines.map sanitize) ++ [' '] ++ closing)) := by
    simp [annotate, hne]
  rw [strip, htext, stripSpans_behind (Text.forall_mem_of_all (by decide)) hopen hclose,
    ofSpan_joined (by simpa using hne) (clean_lines lines) (by simp) (by simp),
    spanItems_map_sanitize (.inr rfl)]

theorem strip_annotate_hash (hne : lines ≠ []) (content : List Char) :
    strip .hash (annotate .hash content lines) =
      ⟨(strip .hash content).text, (strip .hash content).comments ++ items .hash lines⟩ := by
  have htext : annotate .hash content lines =
      content ++ '\n' :: noteText (lines.map sanitize) := by
    simp [annotate, hne, noteText]
  rw [strip, htext, stripHash_behind content fun l hl => (clean_lines lines l hl).1, List.map_map]
  rfl

/-! ### Titles -/

/-- The first item of a line that begins with a name, when the name is not blank. -/
theorem exists_named_item {t : List Char} (ht : trim (sanitize t) ≠ []) : ∃ gap,
    trim (gap ++ trim (sanitize t)) = trim (sanitize t) ∧
      Text.Trimmed ("name:".toList ++ gap ++ trim (sanitize t)) ∧
      trim (sanitize ("name: ".toList ++ t)) = "name:".toList ++ gap ++ trim (sanitize t) := by
  obtain ⟨a, core, z, he, ha, hcore, hz⟩ := exists_trimmed (sanitize t)
  have htrim : trim (sanitize t) = core := by rw [he, Text.trim_between ha hcore hz]
  rw [htrim] at ht ⊢
  have hgap : ∀ c ∈ ' ' :: a, isBlank c := List.forall_mem_cons.mpr ⟨by decide, ha⟩
  have hends : Text.Trimmed ("name:".toList ++ ' ' :: a ++ core) := by
    constructor
    · exact Text.stops_cons (c := 'n') (by decide) _
    · intro c hc
      rw [List.reverse_append, List.head?_append_of_ne_nil _ (by simpa using ht)] at hc
      exact hcore.2 c hc
  have hsplit : "name: ".toList ++ sanitize t = [] ++ ("name:".toList ++ ' ' :: a ++ core) ++ z := by
    rw [he]
    simp
  have htitle : trim (' ' :: a ++ core ++ []) = core := Text.trim_between hgap hcore (by simp)
  rw [List.append_nil] at htitle
  refine ⟨' ' :: a, htitle, hends, ?_⟩
  rw [sanitize_name, hsplit, Text.trim_between (by simp) hends hz]

/-- A title is found in the first comment that a line with a name is read back as. -/
theorem title_of_items {t : List Char} (hs : style ≠ .jsonKey) (ht : trim (sanitize t) ≠ [])
    (text : List Char) (rest : List (List Char)) :
    Stripped.title ⟨text, items style (("name: ".toList ++ t) :: rest)⟩ =
      some (trim (sanitize t)) := by
  obtain ⟨gap, htitle, hends, hitem⟩ := exists_named_item ht
  let named := "name:".toList ++ gap ++ trim (sanitize t)
  have hafter : Text.after? "name:".toList named = some (gap ++ trim (sanitize t)) := by
    rw [show named = "name:".toList ++ (gap ++ trim (sanitize t)) from List.append_assoc _ _ _]
    exact Text.after?_append _ _
  have hfound (more : List (List Char)) :
      Stripped.title ⟨text, named :: more⟩ = some (trim (sanitize t)) := by
    have hsolid : (trim (sanitize t)).isEmpty = false := by simpa using ht
    rw [Stripped.title, List.findSome?_cons]
    simp only [hafter, htitle, hsolid, Bool.false_eq_true, if_false]
  -- no star stands before the word, so that nothing more is taken off in a span
  have hkept : trim (named.dropWhile (· == '*')) = named := Text.trim_of_trimmed hends
  have hsome : named.isEmpty = false := rfl
  have hitems : ∃ more, items style (("name: ".toList ++ t) :: rest) = named :: more := by
    cases style with
    | hash => exact ⟨_, by rw [items, List.map_cons, hitem]⟩
    | backticks | block =>
      exact ⟨_, by rw [items, List.map_cons, hitem, hkept, List.filter_cons, hsome]; rfl⟩
    | jsonKey => exact absurd rfl hs
  obtain ⟨more, hmore⟩ := hitems
  rw [hmore, hfound]

/-- Lines that are put behind a text as comments come off again: the text is what it was without
them, and behind its own comments there is one for each line, without the empty ones in a span.
A title in the first line is found, when the text has no comments of its own. -/
theorem annotations_come_off (hne : lines ≠ []) (h : Parted style content lines) :
    strip style (annotate style content lines) =
        ⟨(strip style content).text, (strip style content).comments ++ items style lines⟩ ∧
      (style ≠ .hash → strip style content = ⟨trim content, []⟩) ∧
      ∀ t, lines.head? = some ("name: ".toList ++ t) → (strip style content).comments = [] →
        trim (sanitize t) ≠ [] →
        (strip style (annotate style content lines)).title = some (trim (sanitize t)) := by
  have hstrip : strip style (annotate style content lines) =
      ⟨(strip style content).text, (strip style content).comments ++ items style lines⟩ := by
    cases style with
    | hash => exact strip_annotate_hash hne content
    | backticks => rw [strip_of_parted (by decide) h, strip_annotate_backticks hne h]; rfl
    | block => rw [strip_of_parted (by decide) h, strip_annotate_block hne h]; rfl
    | jsonKey => exact h.elim
  refine ⟨hstrip, fun hs => strip_of_parted hs h, fun t hfirst hnone ht => ?_⟩
  have hs : style ≠ .jsonKey := by
    rintro rfl
    exact h
  obtain ⟨rest, rfl⟩ : ∃ rest, lines = ("name: ".toList ++ t) :: rest := by
    obtain ⟨l, rest, rfl⟩ := List.exists_cons_of_ne_nil hne
    exact ⟨rest, by rw [Option.some.inj hfirst]⟩
  rw [hstrip, hnone, List.nil_append, title_of_items hs ht]

end Annotate

/-- A title with marks of all kinds, behind a text with single backticks. -/
theorem awkward_annotations_come_off :
    let content := "search a=1 \x60macro\x60".toList
    let lines := ["name: Scan; */ \x60\x60\x60net\x60\x60\x60\n".toList, "*".toList,
      "** \x60tstats\x60 first".toList]
    (lines ≠ [] ∧ Parted .backticks content lines) ∧
      strip .backticks (annotate .backticks content lines) =
        ⟨content, ["name: Scan, * / 'net',".toList, "\x60tstats\x60 first".toList]⟩ ∧
      (strip .backticks (annotate .backticks content lines)).title =
        some "Scan, * / 'net',".toList := by
  intro content lines
  have hne : lines ≠ [] := by simp [lines]
  have hparted : Parted .backticks content lines := by
    refine ⟨by decide +kernel, fun l hl => ?_⟩
    cases hl
    decide
  have h := annotations_come_off hne hparted
  refine ⟨⟨hne, hparted⟩, h.1.trans (by decide +kernel), ?_⟩
  exact (h.2.2 "Scan; */ \x60\x60\x60net\x60\x60\x60\n".toList rfl (by decide +kernel)
    (by decide +kernel)).trans (by decide +kernel)

/-- An opening mark that nothing closes in the text takes the comment behind it in. -/
example : (strip .block (annotate .block "a /* b".toList ["name: T".toList])).comments =
    ["b".toList, "/* name: T".toList] := by decide +kernel

end RuleExchange.Comment
