import RuleExchange.Proofs.TextReplacement

/-! The parts of a text between the separators outside quotes. Behind a separator the cut starts
anew, outside quotes, so the parts are the text up to where the separator first stands outside
quotes, up to where it first does behind that, and so on. Joined they are the text again, each but
the last ends outside quotes, and in none of them is a separator left to cut at, however the quotes
are balanced and however separators overlap. -/

namespace RuleExchange.Text.Quoted

/-! ### Where the cut stands -/

/-- Where the cut stands: in which quote, if in any, and whether the last character escapes the
next one. -/
structure Place where
  quote : Option Char := none
  escaped : Bool := false
  deriving DecidableEq

def outside : Place := {}

/-- Where the cut stands behind one more character. -/
def Place.next (p : Place) (c : Char) : Place :=
  if p.escaped then ⟨p.quote, false⟩
  else
    match p.quote with
    | some q => if c = '\\' then ⟨some q, true⟩ else if c = q then outside else ⟨some q, false⟩
    | none => if isQuote c then ⟨some c, false⟩ else outside

/-- At each character the cut either cuts off the separator, if it stands outside quotes and the
separator begins there, or goes on with the character in the part. -/
theorem splitFrom_cons {sep : List Char} (hsep : sep ≠ []) (hquote : Stops isQuote sep) (p : Place)
    (part : List Char) (c : Char) (cs : List Char) :
    splitFrom sep 0 p.quote p.escaped part (c :: cs) =
      if p = outside ∧ sep <+: c :: cs then
        part.reverse :: splitFrom sep (sep.length - 1) none false [] cs
      else splitFrom sep 0 (p.next c).quote (p.next c).escaped (c :: part) cs := by
  obtain ⟨quote, escaped⟩ := p
  cases escaped with
  | true => simp [splitFrom, Place.next, outside]
  | false =>
    cases quote with
    | some q =>
      by_cases hb : c = '\\'
      · simp [splitFrom, Place.next, outside, hb]
      · by_cases hq : c = q
        · subst hq
          simp [splitFrom, Place.next, outside, hb]
        · simp [splitFrom, Place.next, outside, hb, hq]
    | none =>
      by_cases hq : isQuote c = true
      · have hnot : ¬ sep <+: c :: cs := by
          obtain ⟨x, xs, rfl⟩ := List.exists_cons_of_ne_nil hsep
          rw [List.cons_prefix_cons]
          rintro ⟨rfl, -⟩
          rw [hquote x rfl] at hq
          cases hq
        simp [splitFrom, Place.next, outside, hq, hnot]
      · simp [splitFrom, Place.next, outside, hq, List.isPrefixOf_iff_prefix]

variable {sep s : List Char} {p : Place}

/-- From the place on, the separator begins somewhere outside quotes. -/
def Shows (sep : List Char) (p : Place) (s : List Char) : Prop :=
  ∃ before after, s = before ++ (sep ++ after) ∧ before.foldl Place.next p = outside

theorem not_shows_nil (hsep : sep ≠ []) : ¬ Shows sep p [] := by
  rintro ⟨before, after, h, -⟩
  simp [hsep] at h

theorem shows_cons {c : Char} {cs : List Char} :
    Shows sep p (c :: cs) ↔ (p = outside ∧ sep <+: c :: cs) ∨ Shows sep (p.next c) cs := by
  constructor
  · rintro ⟨before, after, h, hout⟩
    cases before with
    | nil => exact .inl ⟨hout, after, h.symm⟩
    | cons b bs =>
      obtain ⟨rfl, rfl⟩ := List.cons.inj h
      exact .inr ⟨bs, after, rfl, hout⟩
  · rintro (⟨hp, after, h⟩ | ⟨before, after, rfl, hout⟩)
    · exact ⟨[], after, h.symm, hp⟩
    · exact ⟨c :: before, after, rfl, hout⟩

theorem Shows.append (h : Shows sep p s) (t : List Char) : Shows sep p (s ++ t) := by
  obtain ⟨before, after, rfl, hout⟩ := h
  exact ⟨before, after ++ t, by simp, hout⟩

/-- Of the separators outside quotes one is the first. -/
theorem Shows.exists_first (hsep : sep ≠ []) (h : Shows sep p s) :
    ∃ before rest, s = before ++ (sep ++ rest) ∧ before.foldl Place.next p = outside ∧
      ¬ Shows sep p (before ++ sep.dropLast) := by
  induction s generalizing p with
  | nil => exact absurd h (not_shows_nil hsep)
  | cons c cs ih =>
    by_cases hhere : p = outside ∧ sep <+: c :: cs
    · obtain ⟨hp, rest, hrest⟩ := hhere
      refine ⟨[], rest, hrest.symm, hp, ?_⟩
      -- too short for a separator
      rintro ⟨before, after, hshort, -⟩
      have hlength := congrArg List.length hshort
      have hpos := List.length_pos_iff.mpr hsep
      simp only [List.nil_append, List.length_dropLast, List.length_append] at hlength
      omega
    · obtain ⟨before, rest, rfl, hout, hfirst⟩ := ih ((shows_cons.mp h).resolve_left hhere)
      refine ⟨c :: before, rest, rfl, hout, ?_⟩
      rw [List.cons_append, shows_cons, not_or]
      exact ⟨fun ⟨hp, hprefix⟩ => hhere ⟨hp, (prefix_append_dropLast_iff hsep).mpr hprefix⟩, hfirst⟩

/-! ### The parts -/

/-- The parts of a text, each up to where the separator first stands outside quotes. -/
inductive Parts (sep : List Char) : List Char → List (List Char) → Prop
  | whole {s : List Char} (h : ¬ Shows sep outside s) : Parts sep s [s]
  | cut {part rest : List Char} {parts : List (List Char)}
      (hout : part.foldl Place.next outside = outside)
      (hfirst : ¬ Shows sep outside (part ++ sep.dropLast)) (h : Parts sep rest parts) :
      Parts sep (part ++ (sep ++ rest)) (part :: parts)

theorem exists_parts (hsep : sep ≠ []) (s : List Char) : ∃ parts, Parts sep s parts := by
  induction hn : s.length using Nat.strongRecOn generalizing s with
  | _ n ih =>
    by_cases h : Shows sep outside s
    · obtain ⟨part, rest, rfl, hout, hfirst⟩ := h.exists_first hsep
      have hpos := List.length_pos_iff.mpr hsep
      have hshorter : rest.length < n := by
        simp only [← hn, List.length_append]
        omega
      obtain ⟨parts, hparts⟩ := ih rest.length hshorter rest rfl
      exact ⟨part :: parts, .cut hout hfirst hparts⟩
    · exact ⟨[s], .whole h⟩

variable {part : List Char} {parts : List (List Char)}

theorem Parts.ne_nil (h : Parts sep s parts) : parts ≠ [] := by
  cases h <;> simp

theorem Parts.joinWith_eq (h : Parts sep s parts) : joinWith sep parts = s := by
  induction h with
  | whole => exact joinWith_singleton sep _
  | cut _ _ h ih => rw [joinWith_cons_of_ne_nil _ _ h.ne_nil, ih]

theorem Parts.not_shows (h : Parts sep s parts) (hpart : part ∈ parts) :
    ¬ Shows sep outside part := by
  induction h with
  | whole h => rwa [List.mem_singleton.mp hpart]
  | cut _ hfirst _ ih =>
    rcases List.mem_cons.mp hpart with rfl | hpart
    · exact fun hshows => hfirst (hshows.append _)
    · exact ih hpart

theorem Parts.ends_outside (h : Parts sep s parts) (hpart : part ∈ parts.dropLast) :
    part.foldl Place.next outside = outside := by
  induction h with
  | whole => cases hpart
  | cut hout _ h ih =>
    rw [List.dropLast_cons_of_ne_nil h.ne_nil] at hpart
    rcases List.mem_cons.mp hpart with rfl | hpart
    · exact hout
    · exact ih hpart

/-! ### What the cut finds -/

section Cut

variable (hsep : sep ≠ []) (hquote : Stops isQuote sep)
include hsep hquote

theorem splitFrom_of_not_shows (h : ¬ Shows sep p s) (part : List Char) :
    splitFrom sep 0 p.quote p.escaped part s = [part.reverse ++ s] := by
  induction s generalizing p part with
  | nil => simp [splitFrom]
  | cons c cs ih =>
    rw [shows_cons, not_or] at h
    rw [splitFrom_cons hsep hquote, if_neg h.1, ih h.2]
    simp

theorem splitFrom_first {before : List Char} (hout : before.foldl Place.next p = outside)
    (hfirst : ¬ Shows sep p (before ++ sep.dropLast)) (part rest : List Char) :
    splitFrom sep 0 p.quote p.escaped part (before ++ (sep ++ rest)) =
      (part.reverse ++ before) :: split sep rest := by
  induction before generalizing p part with
  | nil =>
    obtain ⟨x, xs, rfl⟩ := List.exists_cons_of_ne_nil hsep
    have hp : p = outside := hout
    have hhere : p = outside ∧ x :: xs <+: x :: (xs ++ rest) := ⟨hp, List.prefix_append _ _⟩
    rw [List.nil_append, List.cons_append, splitFrom_cons hsep hquote, if_pos hhere,
      List.length_cons, Nat.add_sub_cancel, splitFrom_skip, List.append_nil, split]
  | cons c before ih =>
    rw [List.cons_append, shows_cons, not_or] at hfirst
    have hnot : ¬ (p = outside ∧ sep <+: c :: (before ++ (sep ++ rest))) :=
      fun ⟨hp, hprefix⟩ => hfirst.1 ⟨hp, (prefix_append_dropLast_iff hsep).mp hprefix⟩
    rw [List.cons_append, splitFrom_cons hsep hquote, if_neg hnot, ih hout hfirst.2]
    simp

theorem Parts.split_eq (h : Parts sep s parts) : split sep s = parts := by
  induction h with
  | whole h => exact splitFrom_of_not_shows hsep hquote h []
  | @cut part rest _ hout hfirst _ ih =>
    have hcut := splitFrom_first hsep hquote hout hfirst [] rest
    rw [ih] at hcut
    exact hcut

/-- The cut finds the parts, and nothing else is a list of parts. -/
theorem split_eq_iff : split sep s = parts ↔ Parts sep s parts := by
  refine ⟨?_, Parts.split_eq hsep hquote⟩
  rintro rfl
  obtain ⟨parts, h⟩ := exists_parts hsep s
  rwa [h.split_eq hsep hquote]

theorem not_shows_of_mem_split (h : part ∈ split sep s) : ¬ Shows sep outside part :=
  ((split_eq_iff hsep hquote).mp rfl).not_shows h

theorem split_eq_singleton_iff : split sep s = [s] ↔ ¬ Shows sep outside s := by
  refine ⟨fun h => ?_, fun h => (split_eq_iff hsep hquote).mpr (.whole h)⟩
  have hmem : s ∈ split sep s := by rw [h]; exact List.mem_singleton_self s
  exact not_shows_of_mem_split hsep hquote hmem

end Cut

/-- For every text and every separator that is not empty and that no quote begins, the parts joined
with the separator are the text, and the cut leaves each of them as it is. It cuts a text just when
the separator stands in it outside quotes, and every part but the last ends outside quotes. -/
theorem parts_rejoin_and_stay_whole (hsep : sep ≠ []) (hquote : Stops isQuote sep)
    (s : List Char) :
    joinWith sep (split sep s) = s ∧
    (∀ part ∈ split sep s, split sep part = [part]) ∧
    (split sep s = [s] ↔ ¬ Shows sep outside s) ∧
    ∀ part ∈ (split sep s).dropLast, part.foldl Place.next outside = outside := by
  have hparts := (split_eq_iff hsep hquote).mp (rfl : split sep s = split sep s)
  refine ⟨hparts.joinWith_eq, fun part hpart => ?_, split_eq_singleton_iff hsep hquote,
    fun part hpart => hparts.ends_outside hpart⟩
  exact (split_eq_singleton_iff hsep hquote).mpr (hparts.not_shows hpart)

/-- Three ampersands in a row, a quoted separator behind an escaped quote, and a quote that is never
closed, with a backslash at the end. -/
def tangledGuard : List Char := "a &&& \"b \\\" && c\" && 'd && e\\".toList

theorem tangled_guard_rejoins : ['&', '&'] ≠ [] ∧ Stops isQuote ['&', '&'] ∧
    split ['&', '&'] tangledGuard =
      ["a ".toList, "& \"b \\\" && c\" ".toList, " 'd && e\\".toList] ∧
    joinWith ['&', '&'] (split ['&', '&'] tangledGuard) = tangledGuard ∧
    split ['&', '&'] " 'd && e\\".toList = [" 'd && e\\".toList] := by
  have hsep : ['&', '&'] ≠ [] := by decide
  have hquote : Stops isQuote ['&', '&'] := by decide
  have hsplit : split ['&', '&'] tangledGuard =
      ["a ".toList, "& \"b \\\" && c\" ".toList, " 'd && e\\".toList] := by decide
  obtain ⟨hjoin, hwhole, -, -⟩ := parts_rejoin_and_stay_whole hsep hquote tangledGuard
  exact ⟨hsep, hquote, hsplit, hjoin, hwhole _ (by simp [hsplit])⟩

end RuleExchange.Text.Quoted
