import RuleExchange.Proofs.ZeekTerms

/-! Guards are found and read back. A guard goes from the word before it to the first
parenthesis behind which a notice begins, so it must not show such a parenthesis itself;
its terms come apart again where they were joined. -/

namespace RuleExchange.Zeek

open Text (Stops isBlank Trimmed marked)
open Text.Quoted (isQuote escape Uncut)

/-! ### The close of the guard -/

/-- Whether a parenthesis and the word that begins a notice stand in the text, with only blanks
between them. -/
def closesNotice : List Char → Bool
  | [] => false
  | c :: cs =>
    (c == ')' && (Text.after? "NOTICE".toList (skipBlank cs)).isSome) || closesNotice cs

def closePattern (gap : List Char) : List Char := ')' :: (gap ++ "NOTICE".toList)

theorem skipBlank_gap (gap : List Char) (hg : ∀ x ∈ gap, isBlank x = true) {x : Char}
    (hx : isBlank x = false) (t : List Char) : skipBlank (gap ++ x :: t) = x :: t :=
  Text.dropWhile_run hg (Text.stops_cons hx t)

/-- A text closes the notice when one of the patterns for it occurs. -/
theorem closesNotice_eq_false_iff {s : List Char} :
    closesNotice s = false ↔
      ∀ gap, (∀ x ∈ gap, isBlank x = true) → ¬ closePattern gap <:+: s := by
  induction s with
  | nil => simp [closesNotice, closePattern]
  | cons c cs ih =>
    have hhere : (c == ')' && (Text.after? "NOTICE".toList (skipBlank cs)).isSome) = false ↔
        ∀ gap, (∀ x ∈ gap, isBlank x = true) → ¬ closePattern gap <+: c :: cs := by
      rw [Bool.and_eq_false_iff, beq_eq_false_iff_ne, Option.isSome_eq_false_iff,
        Option.isNone_iff_eq_none, Text.after?_eq_none_iff]
      constructor
      · rintro h gap hg hp
        obtain ⟨rfl, rest, rfl⟩ := List.cons_prefix_cons.mp hp
        rw [List.append_assoc] at h
        refine h.elim (fun hne => hne rfl) fun hnot => hnot ?_
        rw [skipBlank, List.dropWhile_append_of_pos hg]
        exact List.prefix_append _ _
      · intro h
        by_cases hc : c = ')'
        · refine .inr fun hp => h (cs.takeWhile isBlank) (fun x hx => ?_) ?_
          · exact List.all_eq_true.mp List.all_takeWhile x hx
          · obtain ⟨rest, hrest⟩ := hp
            refine List.cons_prefix_cons.mpr ⟨hc.symm, rest, ?_⟩
            rw [List.append_assoc, hrest, skipBlank, List.takeWhile_append_dropWhile]
        · exact .inl hc
    rw [closesNotice, Bool.or_eq_false_iff, hhere, ih]
    simp only [List.infix_cons_iff, not_or]
    constructor
    · rintro ⟨hf, hr⟩ gap hg
      exact ⟨hf gap hg, hr gap hg⟩
    · intro h
      exact ⟨fun gap hg => (h gap hg).1, fun gap hg => (h gap hg).2⟩

theorem closesNotice_of_suffix {s t : List Char} (hs : t <:+ s) (h : closesNotice s = false) :
    closesNotice t = false := by
  rw [closesNotice_eq_false_iff] at h ⊢
  exact fun gap hg hin => h gap hg (hin.trans hs.isInfix)

theorem skipBlank_append {x : Char} (hx : isBlank x = false) (s t : List Char) :
    skipBlank (s ++ x :: t) = skipBlank s ++ x :: t := by
  induction s with
  | nil => simp [skipBlank, hx]
  | cons c cs ih =>
    by_cases hc : isBlank c = true
    · simpa [skipBlank, hc] using ih
    · simp [skipBlank, hc]

/-- Before its end a guard is not closed: neither in the text itself, nor by its last characters
together with what follows. -/
theorem closesHere_inside {s : List Char} {x : Char} (hx : isBlank x = false) (hp : x ≠ ')')
    (h : closesNotice (s ++ [x]) = false) (t : List Char) :
    closesHere (s ++ x :: ' ' :: t) = false := by
  rw [closesHere, skipBlank_append hx]
  cases hs : skipBlank s with
  | nil => simp [hp]
  | cons d ds =>
    by_cases hd : d = ')'
    · subst hd
      have hsuffix : ')' :: (ds ++ [x]) <:+ s ++ [x] := by
        obtain ⟨gap, hgap⟩ : skipBlank s <:+ s := List.dropWhile_suffix _
        exact ⟨gap, by rw [← hgap, hs]; simp⟩
      have hclose := closesNotice_of_suffix hsuffix h
      simp only [closesNotice, Bool.or_eq_false_iff, beq_self_eq_true, Bool.true_and,
        Option.isSome_eq_false_iff, Option.isNone_iff_eq_none, Text.after?_eq_none_iff,
        skipBlank_append hx] at hclose
      have hafter : Text.after? "NOTICE".toList (skipBlank (ds ++ x :: ' ' :: t)) = none := by
        rw [Text.after?_eq_none_iff, skipBlank_append hx, ← List.singleton_append,
          ← List.append_assoc, Text.prefix_append_cons_iff (by decide)]
        exact hclose.1
      simp only [List.cons_append, hafter]
    · simp [hd]

theorem untilClose_eq {t : List Char} (ht : closesHere (' ' :: t) = true) {s : List Char}
    {x : Char} (hx : isBlank x = false) (hp : x ≠ ')') (h : closesNotice (s ++ [x]) = false) :
    untilClose (s ++ x :: ' ' :: t) = some (s ++ [x]) := by
  induction s with
  | nil =>
    have hhere : closesHere ([] ++ x :: ' ' :: t) = false := closesHere_inside hx hp h t
    rw [untilClose.eq_def, hhere]
    simp [untilClose.eq_def (' ' :: t), ht]
  | cons c cs ih =>
    rw [untilClose.eq_def, closesHere_inside hx hp h t]
    have hrest := ih (closesNotice_of_suffix (List.suffix_cons c _) h)
    simp [hrest]

/-! ### Where the guard is found -/

variable {pre rest : List Char} {c : Char}

theorem guardHere?_of_not_prefix {s : List Char} (h : ¬ "if".toList <+: s) :
    guardHere? s = none := by
  rw [guardHere?, Text.after?_eq_none_iff.mpr h]
  rfl

/-- A text without the word for a guard is passed over. -/
theorem guard?_skip (hc : c ∉ "if".toList) (h : ¬ "if".toList <:+: pre) (bounded : Bool) :
    guard? bounded (pre ++ c :: rest) = guard? (!Text.isWord c) rest := by
  have hstep (bounded : Bool) (d : Char) (s : List Char) (hp : ¬ "if".toList <+: d :: s) :
      guard? bounded (d :: s) = guard? (!Text.isWord d) s := by
    rw [guard?.eq_def, guardHere?_of_not_prefix hp]
    cases bounded <;> rfl
  induction pre generalizing bounded with
  | nil =>
    refine hstep bounded c rest fun hp => h ?_
    exact ((Text.prefix_append_cons_iff (s := []) hc).mp hp).isInfix
  | cons d ds ih =>
    rw [List.infix_cons_iff, not_or] at h
    have hfirst : ¬ "if".toList <+: d :: (ds ++ c :: rest) := fun hp =>
      h.1 ((Text.prefix_append_cons_iff (s := d :: ds) hc).mp hp)
    rw [List.cons_append, hstep bounded d _ hfirst, ih h.2]

/-- What stands behind the guard of a script. -/
def closing (notice : List Char) : List Char :=
  " )\n\t\tNOTICE([".toList ++ notice ++ "]);\n\t\x7d".toList

theorem closesHere_closing (notice : List Char) : closesHere (closing notice) = true := by
  obtain ⟨more, hmore⟩ : ∃ more, closing notice =
      [' '] ++ ')' :: (['\n', '\t', '\t'] ++ 'N' :: ("OTICE".toList ++ '(' :: more)) :=
    ⟨'[' :: (notice ++ "]);\n\t\x7d".toList), rfl⟩
  have hafter : Text.after? "NOTICE".toList ('N' :: ("OTICE".toList ++ '(' :: more)) =
      some ('(' :: more) := Text.after?_append "NOTICE".toList ('(' :: more)
  have hword : Text.isWord '(' = false := by decide +kernel
  rw [closesHere, hmore, skipBlank_gap [' '] (Text.forall_mem_of_all (by decide)) (by decide)]
  simp only [skipBlank_gap ['\n', '\t', '\t'] (x := 'N') (Text.forall_mem_of_all (by decide))
    (by decide), hafter, hword, Bool.not_false]

theorem guard?_here {g : List Char} (hg : FirmEnds g) (h : closesNotice g = false)
    (notice : List Char) :
    guard? true ("if ( ".toList ++ (g ++ closing notice)) = some g := by
  obtain ⟨s, x, hs, hx, hp⟩ := hg.last
  have hstart : skipBlank (g ++ closing notice) = g ++ closing notice := by
    obtain ⟨d, ds, hd⟩ := List.exists_cons_of_ne_nil (l := g) (by simp [hs])
    rw [skipBlank, hd]
    exact Text.dropWhile_of_stops (Text.stops_cons (hg.start d (by rw [hd]; rfl)) _)
  have huntil : untilClose (g ++ closing notice) = some g := by
    have hsplit : closing notice = ' ' :: (closing notice).tail := rfl
    subst hs
    rw [List.append_assoc, List.singleton_append, hsplit]
    exact untilClose_eq (closesHere_closing notice) hx hp h
  have hhere : guardHere? ("if ( ".toList ++ (g ++ closing notice)) = some g := by
    have hparen : Text.after? ['('] (skipBlank (" ( ".toList ++ (g ++ closing notice))) =
        some (' ' :: (g ++ closing notice)) := by
      have hskip : skipBlank (" ( ".toList ++ (g ++ closing notice)) =
          '(' :: ' ' :: (g ++ closing notice) :=
        skipBlank_gap [' '] (Text.forall_mem_of_all (by decide)) (by decide) _
      rw [hskip]
      rfl
    have hblank : skipBlank (' ' :: (g ++ closing notice)) = g ++ closing notice := hstart
    have hword : Text.after? "if".toList ("if ( ".toList ++ (g ++ closing notice)) =
        some (" ( ".toList ++ (g ++ closing notice)) := Text.after?_append _ _
    rw [guardHere?, hword]
    simp only [Option.bind_eq_bind, Option.bind_some, hparen, hblank, huntil]
  rw [guard?.eq_def, if_pos rfl, hhere]

/-! ### Conjunctions -/

section Conjunction

variable {cs : List Condition} {text : Condition → List Char}

theorem readTerms_of_trim (h : ∀ c ∈ cs, IsTerm (text c) c) {parts : List (List Char)}
    (hparts : parts.map Text.trim = cs.map text) : readTerms parts = .ok cs := by
  induction cs generalizing parts with
  | nil =>
    rw [List.map_nil, List.map_eq_nil_iff] at hparts
    rw [hparts]
    rfl
  | cons c cs ih =>
    obtain ⟨part, more, rfl⟩ := List.exists_cons_of_ne_nil (l := parts) (by rintro rfl; cases hparts)
    rw [List.map_cons, List.map_cons, List.cons.injEq] at hparts
    have hterm := h c (by simp)
    have hsays : ¬ ((text c).isEmpty ∨ text c = ['T']) := by
      have hlong := hterm.long
      rintro (he | he)
      · simp [List.isEmpty_iff.mp he] at hlong
      · simp [he] at hlong
    rw [readTerms, hparts.1]
    simp only [if_neg hsays, hterm.read, ih (fun d hd => h d (by simp [hd])) hparts.2]
    rfl

theorem readTerms_guardText (h : ∀ c ∈ cs, IsTerm (text c) c) :
    readTerms (Text.Quoted.split ['&', '&'] (guardText (cs.map text))) = .ok cs := by
  cases cs with
  | nil => rfl
  | cons c cs =>
    have hfirst := h c (by simp)
    have hpieces : ∀ t ∈ cs.map text, Uncut ['&', '&'] t ∧ Trimmed t := by
      intro t ht
      obtain ⟨d, hd, rfl⟩ := List.mem_map.mp ht
      exact ⟨(h d (by simp [hd])).uncut, (h d (by simp [hd])).ends.trimmed⟩
    obtain ⟨gap, parts, hsplit, hgap, hparts⟩ :=
      Text.Quoted.split_pieces (by decide) hpieces (text c).reverse
    have htrim : Text.trim ([] ++ text c ++ gap) = text c :=
      Text.trim_between (by simp) hfirst.ends.trimmed hgap
    refine readTerms_of_trim h ?_
    rw [guardText, List.map_cons, List.isEmpty_cons, if_neg (by decide), Text.joinWith_cons,
      Text.Quoted.split, hfirst.uncut, List.append_nil]
    change List.map Text.trim (Text.Quoted.splitFrom ['&', '&'] 0 none false (text c).reverse
      ((cs.map text).flatMap fun s => ' ' :: (['&', '&'] ++ ' ' :: s))) = _
    rw [hsplit, List.map_cons, List.reverse_reverse, hparts]
    exact congrArg (· :: cs.map text) htrim

theorem firmEnds_guardText (h : ∀ c ∈ cs, IsTerm (text c) c) :
    FirmEnds (guardText (cs.map text)) := by
  cases cs with
  | nil => exact ⟨Text.stops_cons (by decide) _, [], 'T', rfl, by decide, by decide⟩
  | cons c cs =>
    rw [guardText, if_neg (by simp)]
    induction cs generalizing c with
    | nil =>
      rw [List.map_singleton, Text.joinWith_singleton]
      exact (h c (by simp)).ends
    | cons d ds ih =>
      have hfirst := (h c (by simp)).ends
      obtain ⟨x, xs, hx⟩ := List.exists_cons_of_ne_nil (l := text c) (by
        have hlong := (h c (by simp)).long
        rintro he
        simp [he] at hlong)
      rw [List.map_cons, List.map_cons, Text.joinWith_cons_cons, ← List.append_assoc]
      refine .append ?_ (ih d fun e he => h e (by simp_all))
      rw [hx]
      exact Text.stops_cons (hfirst.start x (by rw [hx]; rfl)) _

theorem not_infix_guardText (h : ∀ c ∈ cs, IsTerm (text c) c) {pat : List Char} (hp : Sealed pat)
    (hv : ∀ c ∈ cs, ¬ pat <:+: writtenValue c) : ¬ pat <:+: guardText (cs.map text) := by
  cases cs with
  | nil => exact hp.around ['T'] (by decide)
  | cons c cs =>
    rw [guardText, if_neg (by simp)]
    induction cs generalizing c with
    | nil =>
      rw [List.map_singleton, Text.joinWith_singleton]
      exact (h c (by simp)).keeps pat hp (hv c (by simp))
    | cons d ds ih =>
      have hfirst := (h c (by simp)).keeps pat hp (hv c (by simp))
      have hrest := ih d (fun e he => h e (by simp_all)) (fun e he => hv e (by simp_all))
      have hmark : '&' ∈ marks := by decide
      have hjoin := hp.barrier hmark (hp.concat (.inl rfl) hfirst)
        (hp.barrier_cons hmark (hp.blank_cons hrest))
      simpa [Text.joinWith_cons_cons] using hjoin

end Conjunction

/-! ### Patterns that are searched for -/

theorem sealed_msg : Sealed "$msg".toList :=
  ⟨Text.forall_mem_of_all (by decide), by decide, by decide, by decide +kernel⟩

theorem sealed_sub : Sealed "$sub".toList :=
  ⟨Text.forall_mem_of_all (by decide), by decide, by decide, by decide +kernel⟩

theorem sealed_or : Sealed ['|', '|'] :=
  ⟨Text.forall_mem_of_all (by decide), by decide, by decide, by decide +kernel⟩

theorem sealed_closePattern {gap : List Char} (hg : ∀ x ∈ gap, isBlank x = true) :
    Sealed (closePattern gap) where
  unmarked := by
    intro x hx hmem
    have hmarks : ∀ x ∈ marks, isBlank x = false ∧ x ∉ ")NOTICE".toList :=
      Text.forall_mem_of_all (by decide)
    obtain ⟨hsolid, hfixed⟩ := hmarks x hx
    simp only [closePattern, List.mem_cons, List.mem_append] at hmem
    rcases hmem with rfl | hmem | hmem
    · exact hfixed (by decide)
    · simp [hg x hmem] at hsolid
    · exact hfixed (List.mem_cons_of_mem _ hmem)
  first := by simp [closePattern]
  last := by
    have hlast : (closePattern gap).getLast? = some 'E' := by
      rw [closePattern, ← List.cons_append, List.getLast?_append]
      rfl
    simp [hlast]
  around := by
    intro s hs hin
    have hparen : ∀ s ∈ surroundings, ')' ∉ s := by decide +kernel
    exact hparen s hs (hin.subset (by simp [closePattern]))

end RuleExchange.Zeek
