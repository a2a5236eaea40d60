import RuleExchange.Proofs.CommentStripping
import Mathlib.Tactic.SplitIfs

/-! A scan for the marks of comments. It walks a text with what it has to remember of the
characters before, and stops where a comment could begin or a line break would be
changed. A text that the scan passes holds nothing that stripping takes out. The scan of a
text that is put together is the scan of its parts, and a backslash before a character
never hinders it. -/

namespace RuleExchange.Comment

open Text (exists_trimmed isBlank marked)

/-- What a scan remembers of the text before a place. -/
inductive Place
  /-- Nothing but that the line has begun. -/
  | inside
  /-- Only blanks stand before on the line. -/
  | fresh
  /-- A carriage return stands before, in a line that has begun. -/
  | insideReturn
  /-- A carriage return stands before, and only blanks on the line. -/
  | freshReturn
  /-- One backtick stands before. -/
  | tick
  /-- Two backticks stand before. -/
  | ticks
  | slash
  deriving DecidableEq, Repr

namespace Place

def all : List Place := [inside, fresh, insideReturn, freshReturn, tick, ticks, slash]

theorem mem_all (q : Place) : q ∈ all := by cases q <;> decide

def isFresh : Place → Bool
  | fresh | freshReturn => true
  | _ => false

def isReturn : Place → Bool
  | insideReturn | freshReturn => true
  | _ => false

/-- The same place in a line that has begun. -/
def begun : Place → Place
  | fresh => inside
  | freshReturn => insideReturn
  | q => q

end Place

open Place

def hashStep (q : Place) (c : Char) : Option Place :=
  if c = '#' ∧ q.isFresh then none
  else if c = '\n' then if q.isReturn then none else some fresh
  else if c = '\r' then some (if q.isFresh then freshReturn else insideReturn)
  else some (if q.isFresh && isBlank c then fresh else inside)

def tickStep (q : Place) (c : Char) : Option Place :=
  if c = '\x60' then
    match q with
    | tick => some ticks
    | ticks => none
    | _ => some tick
  else some inside

def blockStep (q : Place) (c : Char) : Option Place :=
  if c = '*' ∧ q = slash then none else some (if c = '/' then slash else inside)

def step : CommentStyle → Place → Char → Option Place
  | .hash => hashStep
  | .backticks => tickStep
  | .block => blockStep
  | .jsonKey => fun _ _ => some inside

/-- The place behind a text, unless the scan stops in it. -/
def scan (style : CommentStyle) (q : Place) (s : List Char) : Option Place :=
  s.foldlM (step style) q

/-- The place before a text. -/
def start : CommentStyle → Place
  | .hash => fresh
  | _ => inside

def Passes (style : CommentStyle) (q : Place) (s : List Char) : Prop :=
  (scan style q s).isSome = true

instance (style : CommentStyle) (q : Place) (s : List Char) : Decidable (Passes style q s) :=
  inferInstanceAs (Decidable (_ = true))

variable {style : CommentStyle} {q q₁ q₂ : Place} {s t : List Char}

@[simp] theorem scan_nil : scan style q [] = some q := rfl

@[simp] theorem scan_cons (c : Char) (s : List Char) :
    scan style q (c :: s) = (step style q c).bind fun q₁ => scan style q₁ s := by
  simp [scan, List.foldlM_cons]

theorem scan_append (s t : List Char) :
    scan style q (s ++ t) = (scan style q s).bind fun q₁ => scan style q₁ t := by
  simp [scan, List.foldlM_append]

theorem scan_append_of (h : scan style q s = some q₁) (t : List Char) :
    scan style q (s ++ t) = scan style q₁ t := by
  rw [scan_append, h, Option.bind_some]

theorem passes_cons_iff {c : Char} :
    Passes style q (c :: s) ↔ ∃ q₁, step style q c = some q₁ ∧ Passes style q₁ s := by
  rw [Passes, scan_cons]
  cases step style q c <;> simp [Passes]

theorem Passes.exists_place (h : Passes style q s) : ∃ q₁, scan style q s = some q₁ :=
  Option.isSome_iff_exists.mp h

theorem passes_of_scan (h : scan style q s = some q₁) : Passes style q s := by
  rw [Passes, h]
  rfl

/-! ### What a scan finds -/

theorem isFresh_hashStep {c : Char} (h : hashStep q c = some q₁) :
    q₁.isFresh = (c == '\n' || q.isFresh && isBlank c) := by
  have hsharp : isBlank '#' = false := by decide
  have hreturn : isBlank '\r' = true := by decide
  unfold hashStep at h
  split_ifs at h with h₁ h₂ h₃ h₄ h₅ h₆
  all_goals
    cases h
    simp_all [isFresh]

theorem scan_of_startsLine (h : startsLine q.isFresh s = true) : scan .hash q s = none := by
  induction s generalizing q with
  | nil => cases h
  | cons c cs ih =>
    rw [startsLine, Bool.or_eq_true, Bool.and_eq_true] at h
    rw [scan_cons]
    rcases h with ⟨hfresh, hc⟩ | hlater
    · simp [step, hashStep, hfresh, beq_iff_eq.mp hc]
    · cases hstep : step .hash q c with
      | none => rfl
      | some q₁ =>
        rw [← isFresh_hashStep hstep] at hlater
        exact ih hlater

/-- A scan that stops in a mark wherever the mark stands finds every occurrence of it. -/
theorem not_infix_of_passes {m : List Char} (hm : ∀ q ∈ Place.all, scan style q m = none)
    (h : Passes style q s) : ¬ m <:+: s := by
  rintro ⟨a, z, rfl⟩
  obtain ⟨q₁, hq₁⟩ := h.exists_place
  rw [List.append_assoc, scan_append] at hq₁
  cases ha : scan style q a with
  | none => simp [ha] at hq₁
  | some q₂ => simp [ha, scan_append, hm q₂ (mem_all q₂)] at hq₁

theorem not_hasSpan_of_not_infix {start stop : List Char} (h : ¬ start <:+: s) :
    ¬ HasSpan start stop s := by
  rintro ⟨a, inner, z, rfl⟩
  exact h ⟨a, inner ++ (stop ++ z), by simp⟩

/-- What may be the beginning of a mark before a place. -/
def Place.kept : Place → List Char
  | insideReturn | freshReturn => ['\r']
  | tick => ['\x60']
  | ticks => ['\x60', '\x60']
  | slash => ['/']
  | _ => []

/-- The mark that a scan looks for. -/
def mark : CommentStyle → List Char
  | .hash => longBreak
  | .backticks => fence
  | .block => opening
  | .jsonKey => []

/-- No comment can begin in the text, and no line break in it would be changed; `first` tells that
the text begins its line. -/
def Clear : CommentStyle → Bool → List Char → Prop
  | .hash, first, s => startsLine first s = false ∧ ¬ longBreak <:+: s
  | .backticks, _, s => ¬ fence <:+: s
  | .block, _, s => ¬ opening <:+: s
  | .jsonKey, _, _ => True

instance (style : CommentStyle) (first : Bool) (s : List Char) : Decidable (Clear style first s) :=
  match style with
  | .hash => inferInstanceAs (Decidable (_ = false ∧ ¬ longBreak <:+: s))
  | .backticks => inferInstanceAs (Decidable (¬ fence <:+: s))
  | .block => inferInstanceAs (Decidable (¬ opening <:+: s))
  | .jsonKey => .isTrue trivial

theorem kept_suffix {c : Char} (h : step style q c = some q₁) : q₁.kept <:+ q.kept ++ [c] := by
  cases style with
  | hash =>
    simp only [step, hashStep] at h
    split_ifs at h
    all_goals
      cases h
      simp_all [kept]
  | backticks =>
    simp only [step, tickStep] at h
    split_ifs at h
    · cases q <;> cases h <;> simp_all [kept]
    · cases h
      exact List.nil_suffix
  | block =>
    simp only [step, blockStep] at h
    split_ifs at h
    all_goals
      cases h
      simp_all [kept]
  | jsonKey =>
    cases h
    exact List.nil_suffix

theorem stop_cases {c : Char} (h : step style q c = none) :
    style = .hash ∧ q.isFresh = true ∧ c = '#' ∨ mark style <:+: q.kept ++ [c] := by
  cases style with
  | hash =>
    simp only [step, hashStep] at h
    split_ifs at h with hsharp hfeed hreturn
    · exact .inl ⟨rfl, hsharp.2, hsharp.1⟩
    · refine .inr ?_
      rw [hfeed]
      cases q <;> first | exact List.infix_rfl | cases hreturn
  | backticks =>
    simp only [step, tickStep] at h
    split_ifs at h with htick
    refine .inr ?_
    rw [htick]
    cases q <;> first | exact List.infix_rfl | cases h
  | block =>
    simp only [step, blockStep] at h
    split_ifs at h with hstar
    refine .inr ?_
    rw [hstar.1, hstar.2]
    exact List.infix_rfl
  | jsonKey => cases h

/-- A scan stops only where there is something to stop at. -/
theorem found_of_scan (h : scan style q s = none) :
    style = .hash ∧ startsLine q.isFresh s = true ∨ mark style <:+: q.kept ++ s := by
  induction s generalizing q with
  | nil => cases h
  | cons c cs ih =>
    have hsplit : q.kept ++ c :: cs = (q.kept ++ [c]) ++ cs := by simp
    rw [scan_cons] at h
    cases hstep : step style q c with
    | none =>
      rcases stop_cases hstep with ⟨hstyle, hfresh, hc⟩ | hmark
      · exact .inl ⟨hstyle, by simp [startsLine, hfresh, hc]⟩
      · rw [hsplit]
        exact .inr (hmark.trans (List.prefix_append _ _).isInfix)
    | some q₁ =>
      rw [hstep, Option.bind_some] at h
      rcases ih h with ⟨rfl, hline⟩ | hmark
      · rw [isFresh_hashStep hstep] at hline
        exact .inl ⟨rfl, by rw [startsLine, hline, Bool.or_true]⟩
      · obtain ⟨a, ha⟩ := kept_suffix hstep
        refine .inr (hmark.trans ⟨a, [], ?_⟩)
        rw [hsplit, ← ha]
        simp

theorem passes_jsonKey (q : Place) (s : List Char) : Passes .jsonKey q s := by
  induction s generalizing q with
  | nil => rfl
  | cons c cs ih => exact passes_cons_iff.mpr ⟨inside, rfl, ih inside⟩

/-- From where nothing has begun, a scan passes a text exactly when it is clear. -/
theorem passes_iff_clear (hq : q.kept = []) : Passes style q s ↔ Clear style q.isFresh s := by
  have hfound (h : ¬ Passes style q s) :
      style = .hash ∧ startsLine q.isFresh s = true ∨ mark style <:+: s := by
    have hscan := found_of_scan (Option.not_isSome_iff_eq_none.mp h)
    rwa [hq, List.nil_append] at hscan
  cases style with
  | hash =>
    refine ⟨fun h => ⟨Bool.eq_false_iff.mpr fun hline => ?_,
      not_infix_of_passes (by decide) h⟩, fun h => by_contra fun hstop => ?_⟩
    · simp [Passes, scan_of_startsLine hline] at h
    · rcases hfound hstop with ⟨-, hline⟩ | hbreak
      · exact absurd (h.1.symm.trans hline) (by decide)
      · exact h.2 hbreak
  | backticks =>
    exact ⟨not_infix_of_passes (m := fence) (by decide), fun h => by_contra fun hstop =>
      h ((hfound hstop).resolve_left (by simp))⟩
  | block =>
    exact ⟨not_infix_of_passes (m := opening) (by decide), fun h => by_contra fun hstop =>
      h ((hfound hstop).resolve_left (by simp))⟩
  | jsonKey => exact ⟨fun _ => trivial, fun _ => passes_jsonKey q s⟩

theorem passes_start_iff : Passes style (start style) s ↔ Clear style true s := by
  cases style <;> exact passes_iff_clear rfl

theorem passes_inside_iff : Passes style inside s ↔ Clear style false s := passes_iff_clear rfl

/-- Stripping finds nothing in a clear text. -/
theorem not_marked_of_clear (h : Clear style true s) : ¬ Marked style s := by
  cases style with
  | hash =>
    rintro (hline | hbreak)
    · exact absurd (h.1.symm.trans hline) (by decide)
    · obtain ⟨a, core, z, rfl, ha, hcore, hz⟩ := exists_trimmed s
      rw [Text.trim_between ha hcore hz] at hbreak
      exact h.2 (hbreak.trans ⟨a, z, rfl⟩)
  | backticks => exact not_hasSpan_of_not_infix (show ¬ fence <:+: s from h)
  | block => exact not_hasSpan_of_not_infix (show ¬ opening <:+: s from h)
  | jsonKey => exact id

/-! ### Texts inside a line -/

theorem hashStep_begun {c : Char} (h : hashStep q c = some q₁) :
    hashStep q.begun c = some q₁ ∨ hashStep q.begun c = some q₁.begun := by
  have hfresh : q.begun.isFresh = false := by cases q <;> rfl
  have hreturn : q.begun.isReturn = q.isReturn := by cases q <;> rfl
  unfold hashStep at h ⊢
  rw [hfresh, hreturn]
  split_ifs at h with h₁ h₂ h₃ h₄ h₅ h₆
  all_goals
    cases h
    simp_all [begun]

theorem Passes.begun (h : Passes .hash q s) : Passes .hash q.begun s := by
  induction s generalizing q with
  | nil => rfl
  | cons c cs ih =>
    obtain ⟨q₁, hstep, hrest⟩ := passes_cons_iff.mp h
    rcases hashStep_begun hstep with hsame | hbegun
    · exact passes_cons_iff.mpr ⟨q₁, hsame, hrest⟩
    · exact passes_cons_iff.mpr ⟨q₁.begun, hbegun, ih hrest⟩

/-- What passes at the start of a text passes inside a line as well. -/
theorem Passes.inside (h : Passes style (start style) s) : Passes style inside s := by
  cases style with
  | hash => exact h.begun
  | backticks => exact h
  | block => exact h
  | jsonKey => exact h

/-! ### Characters written in another way -/

/-- Characters are written so that a scan comes out where the character itself leads. -/
def Respects (style : CommentStyle) (g : Char → List Char) : Prop :=
  ∀ c q q₁, step style q c = some q₁ → scan style q (g c) = some q₁

theorem scan_flatMap {g : Char → List Char} (hg : Respects style g) (h : scan style q s = some q₁) :
    scan style q (s.flatMap g) = some q₁ := by
  induction s generalizing q with
  | nil => exact h
  | cons c cs ih =>
    rw [scan_cons] at h
    obtain ⟨q₂, hstep, hrest⟩ := Option.bind_eq_some_iff.mp h
    rw [List.flatMap_cons, scan_append_of (hg c q q₂ hstep)]
    exact ih hrest

theorem step_backslash (style : CommentStyle) (q : Place) : step style q '\\' = some inside := by
  cases style <;> cases q <;> rfl

theorem step_inside {c : Char} (hblank : isBlank c = false) (htick : c ≠ '\x60')
    (h : step style q c = some q₁) : step style inside c = some q₁ := by
  have hfeed : c ≠ '\n' := by
    rintro rfl
    revert hblank
    decide
  have hreturn : c ≠ '\r' := by
    rintro rfl
    revert hblank
    decide
  cases style with
  | hash =>
    have hbegun : inside.isFresh = false := rfl
    simp only [step, hashStep, hfeed, hreturn, hblank, if_false, Bool.and_false, hbegun,
      Bool.false_eq_true, and_false] at h ⊢
    split at h
    · cases h
    · exact h
  | backticks => simpa [step, tickStep, htick] using h
  | block =>
    have hslash : inside ≠ slash := by decide
    simp only [step, blockStep, hslash, and_false, if_false] at h ⊢
    split at h
    · cases h
    · exact h
  | jsonKey => exact h

theorem respects_marked {p : Char → Bool} (hp : ∀ c, p c = true → isBlank c = false ∧ c ≠ '\x60') :
    Respects style fun c => if p c then ['\\', c] else [c] := by
  intro c q q₁ h
  by_cases hc : p c = true
  · obtain ⟨hblank, htick⟩ := hp c hc
    simp [hc, step_backslash, step_inside hblank htick h]
  · simpa [hc] using h

/-- A backslash before a character never hinders a scan. -/
theorem scan_marked {p : Char → Bool} (hp : ∀ c, p c = true → isBlank c = false ∧ c ≠ '\x60')
    (h : scan style q s = some q₁) : scan style q (marked p s) = some q₁ :=
  scan_flatMap (respects_marked hp) h

theorem passes_marked {p : Char → Bool} (hp : ∀ c, p c = true → isBlank c = false ∧ c ≠ '\x60')
    (h : Passes style q s) : Passes style q (marked p s) := by
  obtain ⟨q₁, hq₁⟩ := h.exists_place
  exact passes_of_scan (scan_marked hp hq₁)

/-! ### Texts put together -/

theorem passes_append (hs : Passes style q s) (ht : ∀ q₁, Passes style q₁ t) :
    Passes style q (s ++ t) := by
  obtain ⟨q₁, hq₁⟩ := hs.exists_place
  rw [Passes, scan_append_of hq₁]
  exact ht q₁

/-- Parts after each of which the scan is where it was before. -/
theorem scan_loop {α : Type} {f : α → List Char} {ts : List α}
    (h : ∀ x ∈ ts, scan style q (f x) = some q) : scan style q (ts.flatMap f) = some q := by
  induction ts with
  | nil => rfl
  | cons x ts ih =>
    rw [List.forall_mem_cons] at h
    rw [List.flatMap_cons, scan_append_of h.1, ih h.2]

/-- Parts that end inside a line, wherever the first of them begins. -/
theorem passes_flatMap {α : Type} {f : α → List Char} {ts : List α}
    (h : ∀ x ∈ ts, ∀ q, scan style q (f x) = some inside) (q : Place) :
    Passes style q (ts.flatMap f) := by
  cases ts with
  | nil => rfl
  | cons x ts =>
    rw [List.forall_mem_cons] at h
    rw [List.flatMap_cons, Passes, scan_append_of (h.1 q), scan_loop fun y hy => h.2 y hy inside]
    rfl

/-- A text that ends inside a line wherever it begins. -/
def Settles (style : CommentStyle) (s : List Char) : Prop :=
  ∀ q ∈ Place.all, scan style q s = some inside

instance (style : CommentStyle) (s : List Char) : Decidable (Settles style s) :=
  inferInstanceAs (Decidable (∀ q ∈ Place.all, _))

theorem Settles.scan_eq (h : Settles style s) (q : Place) : scan style q s = some inside :=
  h q (mem_all q)

/-- Behind a text that passes, a text that settles brings the scan inside a line. -/
theorem scan_settled (hs : Passes style q s) (ht : Settles style t) :
    scan style q (s ++ t) = some inside := by
  obtain ⟨q₁, hq₁⟩ := hs.exists_place
  rw [scan_append_of hq₁, ht.scan_eq]

theorem Settles.passes_append (hs : Settles style s) (ht : Passes style inside t) (q : Place) :
    Passes style q (s ++ t) := by
  rw [Passes, scan_append_of (hs.scan_eq q)]
  exact ht

theorem passes_joinWith {sep : List Char} (hsep : Settles style sep) {parts : List (List Char)}
    (h : ∀ x ∈ parts, Passes style inside x) : Passes style inside (Text.joinWith sep parts) := by
  induction parts with
  | nil => rfl
  | cons x xs ih =>
    rw [List.forall_mem_cons] at h
    cases xs with
    | nil =>
      rw [Text.joinWith_singleton]
      exact h.1
    | cons y ys =>
      rw [Text.joinWith_cons_cons, ← List.append_assoc, Passes,
        scan_append_of (scan_settled h.1 hsep)]
      exact ih h.2

/-- A text between two marks that settle, in which some characters are marked. -/
theorem scan_enclosed {mark : Char} (hmark : Settles style [mark]) {p : Char → Bool}
    (hp : ∀ c, p c = true → isBlank c = false ∧ c ≠ '\x60') (h : Passes style inside s)
    (q : Place) : scan style q (mark :: (marked p s ++ [mark])) = some inside := by
  rw [← List.singleton_append, scan_append_of (hmark.scan_eq q)]
  exact scan_settled (passes_marked hp h) hmark

theorem scan_plain (h : ∀ c ∈ s, c ≠ '#' ∧ c ≠ '\n' ∧ c ≠ '\r') :
    scan .hash inside s = some inside := by
  induction s with
  | nil => rfl
  | cons c cs ih =>
    rw [List.forall_mem_cons] at h
    have hstep : step .hash inside c = some inside := by
      simp [step, hashStep, h.1, isFresh]
    rw [scan_cons, hstep, Option.bind_some, ih h.2]

end RuleExchange.Comment
