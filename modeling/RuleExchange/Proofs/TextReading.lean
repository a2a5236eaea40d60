import Mathlib.Data.List.Basic
import Mathlib.Data.List.TakeWhile
import RuleExchange.Text.Quoted

/-! Reading back what was written. A run of characters of one kind ends where the first
character of another kind stands, trimming takes off exactly the blanks around a text
that has none at its ends, and a cut at a separator passes over quoted text. -/

namespace RuleExchange.Text

/-- What holds of the characters of a text can be decided one by one. -/
theorem forall_mem_of_all {p : Char → Prop} [DecidablePred p] {s : List Char}
    (h : s.all (fun c => decide (p c)) = true) : ∀ c ∈ s, p c := by
  simpa using h

/-! ### Runs -/

/-- The text is empty or begins with a character that is not of the kind. -/
def Stops (p : Char → Bool) (s : List Char) : Prop := ∀ c ∈ s.head?, p c = false

theorem stops_nil (p : Char → Bool) : Stops p [] := by simp [Stops]

theorem stops_cons {p : Char → Bool} {c : Char} (h : p c = false) (s : List Char) :
    Stops p (c :: s) := by simpa [Stops] using h

instance (p : Char → Bool) : DecidablePred (Stops p)
  | [] => isTrue (stops_nil p)
  | c :: cs => decidable_of_iff (p c = false) ⟨fun h => stops_cons h cs, fun h => h c rfl⟩

theorem stops_append_cons {p : Char → Bool} {s : List Char} (hs : Stops p s) {c : Char}
    (hc : p c = false) (rest : List Char) : Stops p (s ++ c :: rest) := by
  cases s with
  | nil => exact stops_cons hc rest
  | cons d ds => exact stops_cons (hs d rfl) _

theorem stops_eq_iff {x : Char} {s : List Char} : Stops (· == x) s ↔ s.head? ≠ some x := by
  cases s <;> simp [Stops]

theorem takeWhile_of_stops {p : Char → Bool} {s : List Char} (h : Stops p s) :
    s.takeWhile p = [] := by
  cases s with
  | nil => rfl
  | cons c cs => simp [h c rfl]

theorem dropWhile_of_stops {p : Char → Bool} {s : List Char} (h : Stops p s) :
    s.dropWhile p = s := by
  cases s with
  | nil => rfl
  | cons c cs => simp [h c rfl]

theorem stops_dropWhile (p : Char → Bool) (s : List Char) : Stops p (s.dropWhile p) := by
  intro c hc
  have hfirst := List.head?_dropWhile_not p s
  rw [Option.mem_def.mp hc] at hfirst
  simpa using hfirst

theorem takeWhile_run {p : Char → Bool} {run rest : List Char} (hrun : ∀ c ∈ run, p c)
    (hrest : Stops p rest) : (run ++ rest).takeWhile p = run := by
  rw [List.takeWhile_append_of_pos hrun, takeWhile_of_stops hrest, List.append_nil]

theorem dropWhile_run {p : Char → Bool} {run rest : List Char} (hrun : ∀ c ∈ run, p c)
    (hrest : Stops p rest) : (run ++ rest).dropWhile p = rest := by
  rw [List.dropWhile_append_of_pos hrun, dropWhile_of_stops hrest]

theorem exists_run (p : Char → Bool) (s : List Char) :
    ∃ a t, s = a ++ t ∧ (∀ c ∈ a, p c) ∧ Stops p t :=
  ⟨s.takeWhile p, s.dropWhile p, List.takeWhile_append_dropWhile.symm,
    fun _ hc => List.mem_takeWhile_imp hc, stops_dropWhile p s⟩

theorem isDigit_toString (n : Nat) : ∀ c ∈ (toString n).toList, c.isDigit = true := by
  rw [Nat.toString_eq_repr, Nat.toList_repr]
  exact fun c hc => Nat.isDigit_of_mem_toDigits (by decide) (by decide) hc

theorem isBlank_of_isDigit {c : Char} (h : c.isDigit = true) : isBlank c = false := by
  have hdigit : 48 ≤ c.toNat ∧ c.toNat ≤ 57 := by simpa [Char.isDigit_iff_toNat] using h
  simp [isBlank]
  omega

/-! ### Trimming -/

/-- No blank at either end. -/
def Trimmed (s : List Char) : Prop := Stops isBlank s ∧ Stops isBlank s.reverse

instance (s : List Char) : Decidable (Trimmed s) :=
  inferInstanceAs (Decidable (Stops isBlank s ∧ Stops isBlank s.reverse))

theorem trimmed_of_forall {s : List Char} (h : ∀ c ∈ s, isBlank c = false) : Trimmed s :=
  ⟨fun c hc => h c (List.mem_of_mem_head? hc),
    fun c hc => h c (List.mem_reverse.mp (List.mem_of_mem_head? hc))⟩

theorem trim_between {before s after : List Char} (hb : ∀ c ∈ before, isBlank c)
    (hs : Trimmed s) (ha : ∀ c ∈ after, isBlank c) : trim (before ++ s ++ after) = s := by
  have hstart : trimStart (before ++ s ++ after) = if s = [] then [] else s ++ after := by
    rw [trimStart, List.append_assoc, List.dropWhile_append_of_pos hb]
    cases s with
    | nil => simpa using dropWhile_run ha (stops_nil isBlank)
    | cons c cs => simp [hs.1 c rfl]
  have hend : trimEnd (s ++ after) = s := by
    rw [trimEnd, dropEndWhile, List.reverse_append,
      dropWhile_run (fun c hc => ha c (List.mem_reverse.mp hc)) hs.2, List.reverse_reverse]
  rw [trim, hstart]
  split
  · rename_i h
    simp [h, trimEnd, dropEndWhile]
  · exact hend

theorem trim_of_trimmed {s : List Char} (hs : Trimmed s) : trim s = s := by
  have h : trim ([] ++ s ++ []) = s := trim_between (by simp) hs (by simp)
  simpa using h

/-- A text is what trimming leaves of it, between blanks. -/
theorem exists_trimmed (s : List Char) :
    ∃ a core z, s = a ++ core ++ z ∧ (∀ c ∈ a, isBlank c) ∧ Trimmed core ∧ ∀ c ∈ z, isBlank c := by
  obtain ⟨a, t, rfl, ha, ht⟩ := exists_run isBlank s
  obtain ⟨z, core, hz, hblank, hcore⟩ := exists_run isBlank t.reverse
  have htail : t = core.reverse ++ z.reverse := by
    rw [← List.reverse_append, ← hz, List.reverse_reverse]
  refine ⟨a, core.reverse, z.reverse, by rw [htail, List.append_assoc], ha, ⟨fun c hc => ?_, ?_⟩,
    fun c hc => hblank c (List.mem_reverse.mp hc)⟩
  · refine ht c ?_
    rw [htail]
    exact List.mem_head?_append_of_mem_head? hc
  · rwa [List.reverse_reverse]

theorem trim_append_blanks (s : List Char) {z : List Char} (hz : ∀ c ∈ z, isBlank c) :
    trim (s ++ z) = trim s := by
  obtain ⟨a, core, y, rfl, ha, hcore, hy⟩ := exists_trimmed s
  have hend : ∀ c ∈ y ++ z, isBlank c := fun c hc => (List.mem_append.mp hc).elim (hy c) (hz c)
  rw [List.append_assoc, trim_between ha hcore hend, trim_between ha hcore hy]

theorem trim_blanks_append {a : List Char} (ha : ∀ c ∈ a, isBlank c) (s : List Char) :
    trim (a ++ s) = trim s := by
  rw [trim, trim, trimStart, trimStart, List.dropWhile_append_of_pos ha]

theorem trim_append {u s : List Char} (hu : ∀ c ∈ u, isBlank c = false) (hs : Stops isBlank s) :
    trim (u ++ s) = u ++ trim s := by
  have hstart : Stops isBlank (u ++ s) := by
    cases u with
    | nil => exact hs
    | cons c cs => exact stops_cons (hu c (by simp)) _
  have hend : u.reverse.dropWhile isBlank = u.reverse :=
    dropWhile_of_stops (trimmed_of_forall hu).2
  rw [trim, trim, trimStart, trimStart, dropWhile_of_stops hstart, dropWhile_of_stops hs, trimEnd,
    trimEnd, dropEndWhile, dropEndWhile, List.reverse_append, List.dropWhile_append]
  split
  · rename_i hempty
    rw [hend, List.isEmpty_iff.mp hempty]
    simp
  · simp

/-! ### Texts that are joined -/

theorem joinWith_cons_cons (sep x y : List Char) (rest : List (List Char)) :
    joinWith sep (x :: y :: rest) = x ++ (sep ++ joinWith sep (y :: rest)) := by
  simp [joinWith, List.intercalate_cons_cons]

theorem joinWith_singleton (sep x : List Char) : joinWith sep [x] = x := by
  simp [joinWith]

theorem joinWith_cons (sep x : List Char) (xs : List (List Char)) :
    joinWith sep (x :: xs) = x ++ xs.flatMap (sep ++ ·) := by
  induction xs generalizing x with
  | nil => simp [joinWith_singleton]
  | cons y ys ih => rw [joinWith_cons_cons, ih, List.flatMap_cons, List.append_assoc]

namespace Quoted

/-! ### Cutting outside quotes -/

/-- The cut at a separator goes through the text without cutting it and leaves it outside
quotes. -/
def Uncut (sep s : List Char) : Prop :=
  ∀ part rest, splitFrom sep 0 none false part (s ++ rest) =
    splitFrom sep 0 none false (s.reverse ++ part) rest

theorem uncut_nil (sep : List Char) : Uncut sep [] := fun _ _ => rfl

theorem uncut_append {sep s t : List Char} (hs : Uncut sep s) (ht : Uncut sep t) :
    Uncut sep (s ++ t) := by
  intro part rest
  rw [List.append_assoc, hs, ht, List.reverse_append, List.append_assoc]

/-- The character is not the first of the separator. -/
def keepsFrom (sep : List Char) (c : Char) : Bool := sep.head?.any (· != c)

theorem isPrefixOf_of_keepsFrom {sep : List Char} {c : Char} (h : keepsFrom sep c = true)
    (s : List Char) : sep.isPrefixOf (c :: s) = false := by
  cases sep with
  | nil => cases h
  | cons x xs =>
    have hx : x ≠ c := by simpa [keepsFrom] using h
    simp [List.isPrefixOf, hx]

theorem uncut_cons {sep : List Char} {c : Char} (hq : isQuote c = false)
    (hc : keepsFrom sep c = true) {s : List Char} (hs : Uncut sep s) : Uncut sep (c :: s) := by
  intro part rest
  rw [List.cons_append, splitFrom, if_neg (by simp [hq]),
    if_neg (by simp [isPrefixOf_of_keepsFrom hc]), hs]
  simp

theorem uncut_plain {sep s : List Char}
    (h : ∀ c ∈ s, isQuote c = false ∧ keepsFrom sep c = true) : Uncut sep s := by
  induction s with
  | nil => exact uncut_nil sep
  | cons c cs ih =>
    have hc := h c (by simp)
    exact uncut_cons hc.1 hc.2 (ih fun x hx => h x (by simp [hx]))

theorem ne_backslash_of_isQuote {q : Char} (h : isQuote q = true) : q ≠ '\\' := by
  rintro rfl
  cases h

/-- Inside quotes the cut stays inside until the quote that closes. -/
theorem splitFrom_escape (sep : List Char) {q : Char} (hq : isQuote q = true)
    (v part rest : List Char) :
    splitFrom sep 0 (some q) false part (escape q v ++ q :: rest) =
      splitFrom sep 0 none false (q :: (escape q v).reverse ++ part) rest := by
  induction v generalizing part with
  | nil => simp [escape, splitFrom, ne_backslash_of_isQuote hq]
  | cons c cs ih =>
    by_cases hc : c = '\\' ∨ c = q
    · simp [escape, if_pos hc, splitFrom, ih]
    · obtain ⟨hb, hne⟩ := not_or.mp hc
      simp [escape, splitFrom, hb, hne, ih]

theorem uncut_enclose (sep : List Char) {q : Char} (hq : isQuote q = true) (v : List Char) :
    Uncut sep (enclose q v) := by
  intro part rest
  simp only [enclose, List.cons_append, List.append_assoc, List.nil_append, splitFrom, hq,
    if_true, splitFrom_escape sep hq, List.reverse_cons, List.reverse_append, List.reverse_nil]

theorem splitFrom_skip (sep : List Char) (quote : Option Char) (escaped : Bool)
    (part passed rest : List Char) :
    splitFrom sep passed.length quote escaped part (passed ++ rest) =
      splitFrom sep 0 quote escaped part rest := by
  induction passed with
  | nil => rfl
  | cons c cs ih => simpa [splitFrom] using ih

/-- A separator that no blank and no quote begins. -/
def isSeparator (sep : List Char) : Bool := sep.head?.any fun c => c != ' ' && !isQuote c

/-- The parts of a text with pieces behind it, each after a separator between blanks: the text and
the pieces, with blanks around them. -/
theorem split_pieces {sep : List Char} (hsep : isSeparator sep = true) {pieces : List (List Char)}
    (h : ∀ s ∈ pieces, Uncut sep s ∧ Trimmed s) (part : List Char) :
    ∃ gap parts,
      splitFrom sep 0 none false part (pieces.flatMap fun s => ' ' :: (sep ++ ' ' :: s)) =
        (part.reverse ++ gap) :: parts ∧
      (∀ c ∈ gap, isBlank c = true) ∧ parts.map trim = pieces := by
  obtain ⟨x, xs, rfl, hblank, hquote⟩ : ∃ x xs, sep = x :: xs ∧ x ≠ ' ' ∧ isQuote x = false := by
    cases sep with
    | nil => cases hsep
    | cons x xs => exact ⟨x, xs, rfl, by simpa [isSeparator] using hsep⟩
  have hspace (part rest : List Char) : splitFrom (x :: xs) 0 none false part (' ' :: rest) =
      splitFrom (x :: xs) 0 none false (' ' :: part) rest :=
    uncut_cons (by decide) (by simpa [keepsFrom] using hblank) (uncut_nil _) part rest
  induction pieces generalizing part with
  | nil => exact ⟨[], [], by simp [splitFrom], by simp, rfl⟩
  | cons s rest ih =>
    obtain ⟨huncut, htrim⟩ := h s (by simp)
    obtain ⟨gap, parts, hsplit, hgap, hparts⟩ :=
      ih (s.reverse ++ [' ']) fun t ht => h t (by simp [ht])
    refine ⟨[' '], (' ' :: s ++ gap) :: parts, ?_, List.forall_mem_singleton.mpr rfl, ?_⟩
    · have hcut (rest : List Char) : splitFrom (x :: xs) 0 none false part
          (' ' :: (x :: xs ++ ' ' :: rest)) =
          (part.reverse ++ [' ']) :: splitFrom (x :: xs) 0 none false [' '] rest := by
        rw [hspace, List.cons_append, splitFrom, if_neg (by simp [hquote]),
          if_pos (by simp [List.isPrefixOf]), List.length_cons, Nat.add_sub_cancel,
          splitFrom_skip, hspace, List.reverse_cons]
      have hfirst (t : List Char) : ' ' :: (x :: xs ++ ' ' :: s) ++ t =
          ' ' :: (x :: xs ++ ' ' :: (s ++ t)) := by simp
      rw [List.flatMap_cons, hfirst, hcut, huncut, hsplit]
      simp
    · rw [List.map_cons, hparts]
      have hfirst : trim ([' '] ++ s ++ gap) = s :=
        trim_between (List.forall_mem_singleton.mpr rfl) htrim hgap
      exact congrArg (· :: rest) hfirst

end Quoted

end RuleExchange.Text
