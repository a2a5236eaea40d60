import Mathlib.Data.List.Infix
import RuleExchange.Proofs.QueryEquality
import RuleExchange.Regex.Reader

/-! What patterns and conditions say of a text. A text fits a pattern when it comes from it by
putting some text, perhaps an empty one, in the place of each wildcard. Normalising a pattern
keeps what it says: wildcards at the ends leave a text that is only looked for, at an end or
anywhere, and with a wildcard inside all of them stay, spelt in the neutral way. -/

namespace RuleExchange.Condition

/-! ### Texts that fit a pattern -/

/-- The text comes from the pattern by putting a text in the place of each wildcard `w`. -/
inductive Fits (w : Char) : List Char → List Char → Prop
  | nil : Fits w [] []
  | letter {c : Char} {p s : List Char} (hc : c ≠ w) (h : Fits w p s) : Fits w (c :: p) (c :: s)
  | wild (t : List Char) {p s : List Char} (h : Fits w p s) : Fits w (w :: p) (t ++ s)

variable {w : Char} {p q s : List Char}

@[simp] theorem fits_nil_iff : Fits w [] s ↔ s = [] :=
  ⟨fun h => by cases h; rfl, by rintro rfl; exact .nil⟩

theorem fits_wild_iff : Fits w (w :: p) s ↔ ∃ r, r <:+ s ∧ Fits w p r := by
  constructor
  · intro h
    cases h with
    | letter hc => exact absurd rfl hc
    | wild t h => exact ⟨_, List.suffix_append t _, h⟩
  · rintro ⟨r, ⟨t, rfl⟩, h⟩
    exact .wild t h

theorem fits_letter_iff {c : Char} (hc : c ≠ w) :
    Fits w (c :: p) s ↔ ∃ r, s = c :: r ∧ Fits w p r := by
  constructor
  · intro h
    cases h with
    | letter _ h => exact ⟨_, rfl, h⟩
    | wild => exact absurd rfl hc
  · rintro ⟨r, rfl, h⟩
    exact .letter hc h

theorem fits_append_iff : Fits w (p ++ q) s ↔ ∃ a b, s = a ++ b ∧ Fits w p a ∧ Fits w q b := by
  constructor
  · intro h
    induction p generalizing s with
    | nil => exact ⟨[], s, rfl, .nil, h⟩
    | cons c p ih =>
      cases h with
      | letter hc h =>
        obtain ⟨a, b, rfl, ha, hb⟩ := ih h
        exact ⟨c :: a, b, rfl, .letter hc ha, hb⟩
      | wild t h =>
        obtain ⟨a, b, rfl, ha, hb⟩ := ih h
        exact ⟨t ++ a, b, (List.append_assoc t a b).symm, .wild t ha, hb⟩
  · rintro ⟨a, b, rfl, ha, hb⟩
    induction ha with
    | nil => exact hb
    | letter hc _ ih => exact .letter hc ih
    | wild t _ ih => exact List.append_assoc t _ b ▸ .wild t ih

/-- Without a wildcard a pattern stands for itself. -/
theorem fits_literal_iff (h : w ∉ p) : Fits w p s ↔ s = p := by
  induction p generalizing s with
  | nil => exact fits_nil_iff
  | cons c p ih =>
    rw [List.mem_cons, not_or] at h
    rw [fits_letter_iff (Ne.symm h.1)]
    simp [ih h.2]

theorem fits_wilds (h : ∀ c ∈ p, c = w) (hne : p ≠ []) (s : List Char) : Fits w p s := by
  induction p with
  | nil => exact absurd rfl hne
  | cons c p ih =>
    obtain ⟨rfl, hp⟩ := List.forall_mem_cons.mp h
    cases p with
    | nil => exact List.append_nil s ▸ .wild s .nil
    | cons d p => exact .wild [] (ih hp (by simp))

/-- A run of wildcards stands for any text, and no wildcard at all for the empty one. -/
theorem fits_wilds_iff (h : ∀ c ∈ p, c = w) : Fits w p s ↔ (p = [] → s = []) := by
  cases p with
  | nil => simp
  | cons c p => exact iff_of_true (fits_wilds h (by simp) s) fun hnil => by cases hnil

/-- Spelling the wildcard in another way changes nothing when no other character is taken for it. -/
theorem fits_swapChar_iff {a b : Char} (h : b ∈ p → a = b) :
    Fits b (swapChar a b p) s ↔ Fits a p s := by
  induction p generalizing s with
  | nil => simp [swapChar]
  | cons c p ih =>
    have hp := ih (s := s) fun hb => h (List.mem_cons_of_mem c hb)
    rw [swapChar_cons]
    by_cases hca : c = a
    · subst hca
      simp only [if_true, fits_wild_iff, ih fun hb => h (List.mem_cons_of_mem c hb)]
    · have hcb : c ≠ b := fun he => hca (he ▸ (h (he ▸ List.mem_cons_self)).symm)
      simp only [hca, if_false, fits_letter_iff hca, fits_letter_iff hcb,
        ih fun hb => h (List.mem_cons_of_mem c hb)]

/-- Whether a text fits a pattern: a wildcard may take up any start of it. -/
def fits (w : Char) : List Char → List Char → Bool
  | [], s => s.isEmpty
  | c :: p, s => if c = w then s.tails.any (fits w p) else s.head? == some c && fits w p s.tail

theorem fits_eq_true_iff : fits w p s = true ↔ Fits w p s := by
  induction p generalizing s with
  | nil => simp [fits]
  | cons c p ih =>
    rw [fits]
    split
    · rename_i hc
      subst hc
      simp [fits_wild_iff, ih, List.any_eq_true]
    · rename_i hc
      cases s with
      | nil => simp [fits_letter_iff hc]
      | cons d s => simp [fits_letter_iff hc, ih]

instance : Decidable (Fits w p s) := decidable_of_iff (fits w p s = true) fits_eq_true_iff

/-! ### Wildcards at the ends -/

theorem takeWhile_ne_nil_iff : s.takeWhile (· == w) ≠ [] ↔ s.head? = some w := by
  cases s with
  | nil => simp
  | cons c s => by_cases hc : c = w <;> simp [hc]

/-- A pattern of more than wildcards is what stands between the wildcards at its ends. -/
theorem exists_ends (h : ¬ p.all (· == w)) : ∃ l r, p = l ++ stripped w p ++ r ∧
    (∀ c ∈ l ++ r, c = w) ∧ (l ≠ [] ↔ p.head? = some w) ∧ (r ≠ [] ↔ p.getLast? = some w) := by
  let rest := p.dropWhile (· == w)
  let l := p.takeWhile (· == w)
  let r := (rest.reverse.takeWhile (· == w)).reverse
  have hrest : rest = stripped w p ++ r := by
    rw [← List.reverse_inj, List.reverse_append, List.reverse_reverse]
    simp only [stripped, Text.dropEndWhile, List.reverse_reverse]
    exact (List.takeWhile_append_dropWhile ..).symm
  have hp : p = l ++ rest := (List.takeWhile_append_dropWhile ..).symm
  have hne : rest ≠ [] := by
    intro hnil
    rw [List.dropWhile_eq_nil_iff] at hnil
    exact h (List.all_eq_true.mpr hnil)
  refine ⟨l, r, ?_, ?_, takeWhile_ne_nil_iff, ?_⟩
  · rw [List.append_assoc, ← hrest]
    exact hp
  · intro c hc
    rcases List.mem_append.mp hc with hc | hc
    · simpa using List.mem_takeWhile_imp hc
    · simpa using List.mem_takeWhile_imp (List.mem_reverse.mp hc)
  · rw [ne_eq, List.reverse_eq_nil_iff, ← ne_eq, takeWhile_ne_nil_iff, List.head?_reverse,
      hp, List.getLast?_append_of_ne_nil l hne]

/-- A text fits when what stands between the wildcards is found, at an end without wildcards. -/
theorem fits_between_iff {l v r : List Char} (hends : ∀ c ∈ l ++ r, c = w) (hv : w ∉ v) :
    Fits w (l ++ v ++ r) s ↔ ∃ a b, s = a ++ v ++ b ∧ (l = [] → a = []) ∧ (r = [] → b = []) := by
  have hl := fun c hc => hends c (List.mem_append_left r hc)
  have hr := fun c hc => hends c (List.mem_append_right l hc)
  simp only [fits_append_iff, fits_wilds_iff hl, fits_wilds_iff hr, fits_literal_iff hv]
  constructor
  · rintro ⟨_, b, rfl, ⟨a, _, rfl, ha, rfl⟩, hb⟩
    exact ⟨a, b, rfl, ha, hb⟩
  · rintro ⟨a, b, rfl, ha, hb⟩
    exact ⟨a ++ v, b, rfl, ⟨a, v, rfl, ha, rfl⟩, hb⟩

/-! ### What a condition says -/

/-- What an operator with a value says of a text. Equalities read the neutral wildcard, the other
comparisons take their value as it is, and a regular expression has to occur in the text. -/
def Says : Operator → List Char → List Char → Prop
  | .equals, v, s => Fits wildcard v s
  | .notEquals, v, s => ¬ Fits wildcard v s
  | .contains, v, s => v <:+: s
  | .startsWith, v, s => v <+: s
  | .endsWith, v, s => v <:+ s
  | .regex, v, s => ∃ e, Regex.Pattern.ofText? v = some e ∧ e.occursIn s = true

/-- The condition holds of a text in its field. -/
def Accepts (c : Condition) (s : String) : Prop := Says c.operator c.value.toList s.toList

/-- Normalising keeps what a pattern says. -/
theorem says_normalize_iff {raw : List Char} (hne : raw ≠ [])
    (hstar : wildcard ∈ raw → w = wildcard) :
    Says (normalize w raw).1 (normalize w raw).2 s ↔ Fits w raw s := by
  rw [normalize_eq]
  split_ifs with hall hinner
  · -- one wildcard says as much as many
    have hraw : ∀ c ∈ raw, c = w := by simpa using hall
    have hone : ∀ c ∈ [wildcard], c = wildcard := by simp
    exact iff_of_true ((fits_wilds_iff hone).mpr (by simp))
      ((fits_wilds_iff hraw).mpr fun hnil => absurd hnil hne)
  · exact fits_swapChar_iff hstar
  · obtain ⟨l, r, hraw, hends, hhead, hlast⟩ := exists_ends hall
    have hv : w ∉ stripped w raw := by simpa using hinner
    have hfits := fits_between_iff (s := s) hends hv
    have hdecide {o : Option Char} {e : List Char} (h : e ≠ [] ↔ o = some w) :
        (o == some w) = decide (e ≠ []) := by
      rw [Bool.eq_iff_iff, beq_iff_eq, decide_eq_true_iff, h]
    rw [← hraw] at hfits
    rw [hfits, hdecide hhead, hdecide hlast]
    by_cases hl : l = [] <;> by_cases hr : r = [] <;>
      simp only [hl, hr, ne_eq, not_true_eq_false, not_false_eq_true, decide_true, decide_false,
        forall_const, false_imp_iff, and_true, true_and]
    · -- a letter of the pattern that is the neutral wildcard would be its wildcard
      have hplain : wildcard ∉ stripped w raw := fun hm =>
        hv (hstar ((stripped_sublist w raw).subset hm) ▸ hm)
      rw [Says, fits_literal_iff hplain]
      simp
    · simp [Says, List.IsPrefix, eq_comm]
    · simp [Says, List.IsSuffix, eq_comm]
    · simp [Says, List.IsInfix, eq_comm]

/-- A condition made from a pattern holds of exactly the texts that fit the pattern. -/
theorem accepts_ofPattern_iff (field : String) {raw : String} {w : Char} (hne : raw ≠ "")
    (hstar : wildcard ∈ raw.toList → w = wildcard) (s : String) :
    (ofPattern field raw w).Accepts s ↔ Fits w raw.toList s.toList := by
  have hraw : raw.toList ≠ [] := by simpa using hne
  rw [← says_normalize_iff hraw hstar, Accepts, ofPattern, String.toList_ofList]

/-- Percent signs at the ends and inside. -/
theorem percent_pattern_means_the_same :
    (("%%Temp%.exe%" : String) ≠ "" ∧
      (wildcard ∈ ("%%Temp%.exe%" : String).toList → '%' = wildcard)) ∧
    ofPattern "file_path" "%%Temp%.exe%" '%' = ⟨"file_path", .equals, "**Temp*.exe*"⟩ ∧
    (ofPattern "file_path" "%%Temp%.exe%" '%').Accepts "C:\\Temp\\a.exe.bak" ∧
    ¬ (ofPattern "file_path" "%%Temp%.exe%" '%').Accepts ".exe in Temp" :=
  have hne : ("%%Temp%.exe%" : String) ≠ "" := by decide
  have hstar : wildcard ∈ ("%%Temp%.exe%" : String).toList → '%' = wildcard := by decide
  ⟨⟨hne, hstar⟩, by decide, (accepts_ofPattern_iff _ hne hstar _).mpr (by decide),
    fun h => absurd ((accepts_ofPattern_iff _ hne hstar _).mp h) (by decide)⟩

end RuleExchange.Condition
