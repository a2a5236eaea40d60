import RuleExchange.Proofs.PatternMeaning

/-! The normal form of patterns. A condition made from a pattern is written as a pattern again,
with at most one wildcard at either end unless a wildcard stands inside; from there on reading and
writing change nothing. A pattern that is in this form already is written as it was, and no other
one is. -/

namespace RuleExchange.Condition

variable {w : Char} {p v : List Char}

/-! ### Wildcards at the ends -/

theorem exists_runs (h : ¬ p.all (· == w)) : ∃ n m,
    p = List.replicate n w ++ stripped w p ++ List.replicate m w ∧
      (p.head? = some w ↔ 0 < n) ∧ (p.getLast? = some w ↔ 0 < m) := by
  obtain ⟨l, r, hp, hends, hhead, hlast⟩ := exists_ends h
  have hl : l = List.replicate l.length w :=
    List.eq_replicate_iff.mpr ⟨rfl, fun c hc => hends c (List.mem_append_left r hc)⟩
  have hr : r = List.replicate r.length w :=
    List.eq_replicate_iff.mpr ⟨rfl, fun c hc => hends c (List.mem_append_right l hc)⟩
  refine ⟨l.length, r.length, ?_, ?_, ?_⟩
  · rwa [← hl, ← hr]
  · rw [← hhead, List.length_pos_iff]
  · rw [← hlast, List.length_pos_iff]

/-- Wildcards around a text without any are what is stripped. -/
theorem stripped_between (hv : w ∉ v) (n m : Nat) :
    stripped w (List.replicate n w ++ v ++ List.replicate m w) = v := by
  have hrun (k : Nat) : ∀ c ∈ List.replicate k w, (c == w) = true := by simp
  have hstops {t : List Char} (ht : w ∉ t) : Text.Stops (· == w) t :=
    Text.stops_eq_iff.mpr fun he => ht (List.mem_of_mem_head? he)
  cases v with
  | nil =>
    refine stripped_of_all ?_
    simp
  | cons c cs =>
    have hfirst : Text.Stops (· == w) (c :: cs ++ List.replicate m w) := by
      exact Text.stops_cons (p := (· == w)) (hstops hv c rfl) _
    have hlast : Text.Stops (· == w) (c :: cs).reverse :=
      hstops fun hm => hv (List.mem_reverse.mp hm)
    rw [stripped, List.append_assoc, Text.dropWhile_run (hrun n) hfirst, Text.dropEndWhile,
      List.reverse_append, List.reverse_replicate, Text.dropWhile_run (hrun m) hlast,
      List.reverse_reverse]

/-- Two wildcards stand first in a text that begins with a run of them. -/
theorem doubled_prefix_iff {n : Nat} {t : List Char} (ht : t.head? ≠ some w) :
    [w, w] <+: List.replicate n w ++ t ↔ 2 ≤ n := by
  match n with
  | 0 =>
    have hnot : ¬ [w, w] <+: t := fun ⟨rest, he⟩ => ht (he ▸ rfl)
    simpa using hnot
  | 1 =>
    have hnot : ¬ [w] <+: t := fun ⟨rest, he⟩ => ht (he ▸ rfl)
    simpa using hnot
  | n + 2 => simp [List.replicate_succ]

theorem head?_append_of_notMem (hne : v ≠ []) (hv : w ∉ v) (t : List Char) :
    (v ++ t).head? ≠ some w := by
  rw [List.head?_append_of_ne_nil v hne]
  exact fun he => hv (List.mem_of_mem_head? he)

/-! ### The normal form -/

/-- The pattern that a condition made from a pattern is written as. Without a wildcard inside, one
wildcard is left of those at an end. -/
def settled (w : Char) (p : List Char) : List Char :=
  if p.all (· == w) then [w]
  else if (stripped w p).contains w then p
  else (if p.head? = some w then [w] else []) ++ stripped w p ++
    if p.getLast? = some w then [w] else []

/-- A pattern in normal form: it is not empty, if it has wildcards only it is a single one, and if
none stands inside there is at most one at either end. -/
structure Tidy (w : Char) (p : List Char) : Prop where
  nonempty : p ≠ []
  lone : (∀ c ∈ p, c = w) → p.length < 2
  ends : w ∉ stripped w p → ¬ [w, w] <+: p ∧ ¬ [w, w] <:+ p

/-- What is left of the wildcards at the ends when none stands inside. -/
theorem settled_of_runs (hall : ¬ p.all (· == w)) (hinner : w ∉ stripped w p) : ∃ n m,
    p = List.replicate n w ++ stripped w p ++ List.replicate m w ∧
      settled w p = List.replicate (min n 1) w ++ stripped w p ++ List.replicate (min m 1) w := by
  obtain ⟨n, m, hp, hhead, hlast⟩ := exists_runs hall
  have hone (k : Nat) : (if 0 < k then [w] else []) = List.replicate (min k 1) w := by
    cases k <;> simp
  refine ⟨n, m, hp, ?_⟩
  rw [settled, if_neg hall, if_neg (by simpa using hinner), ← hone, ← hone]
  simp only [hhead, hlast]

theorem stripped_ne_nil (hall : ¬ p.all (· == w)) : stripped w p ≠ [] := by
  obtain ⟨n, m, hp, -, -⟩ := exists_runs hall
  intro hnil
  rw [hnil] at hp
  refine hall (List.all_eq_true.mpr fun c hc => ?_)
  rw [hp] at hc
  simp at hc
  simpa using hc.2

/-- A pattern is in normal form exactly when it is its own normal form. -/
theorem settled_eq_self_iff : settled w p = p ↔ Tidy w p := by
  by_cases hall : p.all (· == w)
  · have hp : ∀ c ∈ p, c = w := by simpa using hall
    rw [settled, if_pos hall]
    constructor
    · rintro rfl
      exact ⟨by simp, by simp, fun _ => by constructor <;> simp [List.suffix_iff_eq_append]⟩
    · intro h
      obtain ⟨c, cs, rfl⟩ := List.exists_cons_of_ne_nil h.nonempty
      have hlength := h.lone hp
      have hcs : cs = [] := by
        rw [← List.length_eq_zero_iff]
        simp only [List.length_cons] at hlength
        omega
      rw [hp c List.mem_cons_self, hcs]
  · have hnot : ¬ ∀ c ∈ p, c = w := by simpa using hall
    by_cases hinner : w ∈ stripped w p
    · rw [settled, if_neg hall, if_pos (by simpa using hinner)]
      have hne : p ≠ [] := by
        rintro rfl
        exact hall rfl
      exact iff_of_true rfl ⟨hne, fun h => absurd h hnot, fun h => absurd hinner h⟩
    · obtain ⟨n, m, hp, hsettled⟩ := settled_of_runs hall hinner
      have hne := stripped_ne_nil hall
      have hstart : [w, w] <+: p ↔ 2 ≤ n := by
        conv_lhs => rw [hp, List.append_assoc]
        exact doubled_prefix_iff (head?_append_of_notMem hne hinner _)
      have hend : [w, w] <:+ p ↔ 2 ≤ m := by
        rw [← List.reverse_prefix]
        conv_lhs =>
          rw [hp, List.reverse_append, List.reverse_append, List.reverse_replicate,
            List.reverse_replicate]
        exact doubled_prefix_iff
          (head?_append_of_notMem (by simpa using hne) (by simpa using hinner) _)
      constructor
      · intro he
        -- the runs at the ends cannot make up for each other
        have hlengths := congrArg List.length (hsettled.symm.trans (he.trans hp))
        simp only [List.length_append, List.length_replicate] at hlengths
        refine ⟨fun hnil => hall (by simp [hnil]), fun h => absurd h hnot, fun _ => ?_⟩
        rw [hstart, hend]
        omega
      · intro h
        obtain ⟨hn, hm⟩ := h.ends hinner
        rw [hstart] at hn
        rw [hend] at hm
        have hn1 : min n 1 = n := by omega
        have hm1 : min m 1 = m := by omega
        rw [hsettled, hn1, hm1]
        exact hp.symm

/-! ### What stays of the condition -/

/-- The operator for a text with wildcards before it, behind it, or both. -/
def endOperator (before behind : Bool) : Operator :=
  match before, behind with
  | true, true => .contains
  | true, false => .endsWith
  | false, true => .startsWith
  | false, false => .equals

/-- Only whether there are wildcards at an end matters, not how many. -/
theorem normalize_runs (hne : v ≠ []) (hv : w ∉ v) (n m : Nat) :
    normalize w (List.replicate n w ++ v ++ List.replicate m w) =
      (endOperator (decide (0 < n)) (decide (0 < m)), v) := by
  have hall : ¬ (List.replicate n w ++ v ++ List.replicate m w).all (· == w) := by
    intro hall
    obtain ⟨c, cs, rfl⟩ := List.exists_cons_of_ne_nil hne
    have hc : c = w := by simpa using List.all_eq_true.mp hall c (by simp)
    exact hv (hc ▸ List.mem_cons_self)
  have hhead : (List.replicate n w ++ v ++ List.replicate m w).head? = some w ↔ 0 < n := by
    cases n with
    | zero => simpa using head?_append_of_notMem hne hv _
    | succ n => simp [List.replicate_succ]
  have hlast : (List.replicate n w ++ v ++ List.replicate m w).getLast? = some w ↔ 0 < m := by
    cases m with
    | zero =>
      have hback : (v.reverse ++ List.replicate n w).head? ≠ some w :=
        head?_append_of_notMem (by simpa using hne) (fun hm => hv (List.mem_reverse.mp hm)) _
      rw [← List.head?_reverse]
      simpa using hback
    | succ m => simp [List.replicate_succ']
  have hdecide {o : Option Char} {k : Nat} (h : o = some w ↔ 0 < k) :
      (o == some w) = decide (0 < k) := by
    rw [Bool.eq_iff_iff, beq_iff_eq, decide_eq_true_iff, h]
  rw [normalize_eq, stripped_between hv, if_neg hall, if_neg (by simpa using hv), hdecide hhead,
    hdecide hlast]
  cases decide (0 < n) <;> cases decide (0 < m) <;> rfl

/-- The normal form is normalised to the same condition as the pattern. -/
theorem normalize_settled : normalize w (settled w p) = normalize w p := by
  by_cases hall : p.all (· == w)
  · have hone : [w].all (· == w) := by simp
    rw [settled, if_pos hall, normalize_eq, normalize_eq, if_pos hall, if_pos hone]
  · by_cases hinner : w ∈ stripped w p
    · rw [settled, if_neg hall, if_pos (by simpa using hinner)]
    · obtain ⟨n, m, hp, hsettled⟩ := settled_of_runs hall hinner
      have hne := stripped_ne_nil hall
      have hsome (k : Nat) : 0 < min k 1 ↔ 0 < k := by omega
      conv_rhs => rw [hp]
      simp only [hsettled, normalize_runs hne hinner, hsome]

theorem swapChar_of_notMem {a b : Char} (h : a ∉ p) : swapChar a b p = p := by
  induction p with
  | nil => rfl
  | cons c p ih =>
    rw [List.mem_cons, not_or] at h
    rw [swapChar_cons, if_neg (Ne.symm h.1), ih h.2]

theorem swapChar_back (hstar : wildcard ∈ p → w = wildcard) :
    swapChar wildcard w (swapChar w wildcard p) = p := by
  by_cases hw : w = wildcard
  · subst hw
    rw [Query.swapChar_self, Query.swapChar_self]
  · exact (swapChar_swapChar_eq_iff hw).mpr fun hm => hw (hstar hm)

/-- A condition made from a pattern is written as the pattern's normal form. -/
theorem toPattern_ofPattern (field : String) {raw : String}
    (hstar : wildcard ∈ raw.toList → w = wildcard) :
    (ofPattern field raw w).toPattern w = String.ofList (settled w raw.toList) := by
  by_cases hall : raw.toList.all (· == w)
  · simp [ofPattern, normalize_eq, hall, toPattern, swapChar, settled]
  · by_cases hinner : w ∈ stripped w raw.toList
    · simp [ofPattern, normalize_eq, hall, hinner, toPattern, settled, swapChar_back hstar]
    · obtain ⟨n, m, hp, hsettled⟩ := settled_of_runs hall hinner
      have hne := stripped_ne_nil hall
      -- a star among the letters would be the wildcard
      have hplain : wildcard ∉ stripped w raw.toList := fun hm =>
        hinner (hstar ((stripped_sublist w raw.toList).subset hm) ▸ hm)
      have hnormal := normalize_runs hne hinner n m
      rw [← hp] at hnormal
      rw [hsettled, ofPattern, hnormal]
      rcases n with _ | n <;> rcases m with _ | m <;>
        simp [endOperator, toPattern, swapChar_of_notMem hplain]

/-- Normalising settles at once: the condition made from a pattern, written and read again, is the
same condition, and the pattern comes back exactly when it is in normal form. -/
theorem pattern_settles_at_once (field : String) {raw : String} {w : Char}
    (hstar : wildcard ∈ raw.toList → w = wildcard) :
    let c := ofPattern field raw w
    ofPattern field (c.toPattern w) w = c ∧ (c.toPattern w = raw ↔ Tidy w raw.toList) := by
  intro c
  have hwritten : c.toPattern w = String.ofList (settled w raw.toList) :=
    toPattern_ofPattern field hstar
  constructor
  · rw [hwritten, ofPattern, String.toList_ofList, normalize_settled]
    rfl
  · rw [hwritten, ← String.toList_inj, String.toList_ofList, settled_eq_self_iff]

/-- One percent sign too many goes, those around one inside stay. -/
theorem percent_signs_settle :
    let ends := ofPattern "file_path" "%%Temp%" '%'
    let inside := ofPattern "file_path" "%%Temp%.exe" '%'
    ((wildcard ∈ ("%%Temp%" : String).toList → '%' = wildcard) ∧
      ends.toPattern '%' = "%Temp%" ∧ ofPattern "file_path" "%Temp%" '%' = ends ∧
      ends.toPattern '%' ≠ "%%Temp%") ∧
    inside.toPattern '%' = "%%Temp%.exe" := by
  intro ends inside
  have hends : wildcard ∈ ("%%Temp%" : String).toList → '%' = wildcard := by decide
  have hinside : wildcard ∈ ("%%Temp%.exe" : String).toList → '%' = wildcard := by decide
  have hwritten : ends.toPattern '%' = "%Temp%" := by decide
  refine ⟨⟨hends, hwritten, ?_, fun h => ?_⟩, ?_⟩
  · rw [← hwritten]
    exact (pattern_settles_at_once "file_path" hends).1
  · have htidy := (pattern_settles_at_once "file_path" hends).2.mp h
    exact (htidy.ends (by decide)).1 (by decide)
  · exact (pattern_settles_at_once "file_path" hinside).2.mpr
      ⟨by decide, fun h => absurd (h 'T' (by decide)) (by decide), fun h => absurd (by decide) h⟩

end RuleExchange.Condition
