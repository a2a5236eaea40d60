import Mathlib.Algebra.GroupWithZero.Nat
import Mathlib.Data.Prod.Lex
import RuleExchange.Proofs.TextReading
import RuleExchange.Universal

/-! Windows of versions. A plain version is written as one, two or three numbers, and each number
is read back from its digits as long as it is a word. Numbers that are not written are zero, and
blanks around a version and marks before it change nothing. Plain versions are ordered by their
numbers, the first one that differs deciding, so a window of them is an interval of the
lexicographic order, however its ends are written. -/

namespace RuleExchange

open Text (isBlank Stops)

namespace SemVer

/-! ### Numbers -/

/-- One more digit is read unless it follows a leading zero or makes the number too large. -/
theorem digitsFrom_digitChar (p : Part) {value len d : Nat} (hd : d < 10)
    (hlead : value = 0 → len = 0) (hfits : 10 * value + d < 2 ^ 64) (rest : List Char) :
    digitsFrom p value len (d.digitChar :: rest) =
      digitsFrom p (10 * value + d) (len + 1) rest := by
  have hdigit : d.digitChar.isDigit = true := by simp [Nat.isDigit_digitChar, hd]
  have hvalue : d.digitChar.toNat - 48 = d := by
    rw [Nat.toNat_digitChar_of_lt_ten hd]
    omega
  have hzero : ¬ (value = 0 ∧ 0 < len) := by omega
  rw [digitsFrom, if_pos hdigit, if_neg hzero, hvalue]
  exact if_pos hfits

/-- The digits of a word are read to their end, whatever follows them. -/
theorem digitsFrom_toDigits (p : Part) {n : Nat} (hn : n < 2 ^ 64) (rest : List Char) :
    digitsFrom p 0 0 (Nat.toDigits 10 n ++ rest) =
      digitsFrom p n (Nat.toDigits 10 n).length rest := by
  induction n using Nat.strongRecOn generalizing rest with
  | ind n ih =>
    rcases Nat.lt_or_ge n 10 with hlt | hge
    · rw [Nat.toDigits_of_lt_base hlt, List.singleton_append,
        digitsFrom_digitChar p hlt (fun _ => rfl) (by omega)]
      simp
    · have hsum : 10 * (n / 10) + n % 10 = n := Nat.div_add_mod n 10
      rw [Nat.toDigits_of_base_le (by decide) hge, List.append_assoc,
        ih (n / 10) (by omega) (by omega), List.singleton_append,
        digitsFrom_digitChar p (by omega) (by omega) (by omega), hsum, List.length_append,
        List.length_singleton]

theorem digitsFrom_of_stops (p : Part) (value len : Nat) {rest : List Char}
    (h : Stops Char.isDigit rest) : digitsFrom p value len rest = .ok (value, len, rest) := by
  cases rest with
  | nil => rfl
  | cons c cs => simp [digitsFrom, h c rfl]

theorem number_toDigits (p : Part) (n : UInt64) {rest : List Char} (h : Stops Char.isDigit rest) :
    number p (Nat.toDigits 10 n.toNat ++ rest) = .ok (n.toNat, rest) := by
  rw [number, digitsFrom_toDigits p n.toNat_lt, digitsFrom_of_stops p _ _ h]
  exact if_pos Nat.length_toDigits_pos

/-! ### Plain versions -/

/-- A plain version as it is written, with one, two or all three of its numbers. -/
inductive Plain where
  | one (x : UInt64)
  | two (x y : UInt64)
  | three (x y z : UInt64)
  deriving DecidableEq, Repr

namespace Plain

def text : Plain → String
  | one x => toString x.toNat
  | two x y => toString x.toNat ++ "." ++ toString y.toNat
  | three x y z => toString x.toNat ++ "." ++ toString y.toNat ++ "." ++ toString z.toNat

/-- The same version with all three numbers written. -/
def filled : Plain → Plain
  | one x => three x 0 0
  | two x y => three x y 0
  | three x y z => three x y z

/-- The version that is meant: numbers that are not written are zero. -/
def version : Plain → SemVer
  | one x => { major := x.toNat, minor := 0, patch := 0 }
  | two x y => { major := x.toNat, minor := y.toNat, patch := 0 }
  | three x y z => { major := x.toNat, minor := y.toNat, patch := z.toNat }

theorem version_filled (p : Plain) : p.filled.version = p.version := by
  cases p <;> rfl

@[simp] theorem toList_text_one (x : UInt64) :
    (one x).text.toList = Nat.toDigits 10 x.toNat := by
  simp [text]

@[simp] theorem toList_text_two (x y : UInt64) : (two x y).text.toList =
    Nat.toDigits 10 x.toNat ++ '.' :: Nat.toDigits 10 y.toNat := by
  simp [text]

@[simp] theorem toList_text_three (x y z : UInt64) : (three x y z).text.toList =
    Nat.toDigits 10 x.toNat ++
      '.' :: (Nat.toDigits 10 y.toNat ++ '.' :: Nat.toDigits 10 z.toNat) := by
  simp [text]

theorem parse_text_three (x y z : UInt64) :
    parse (three x y z).text.toList = .ok (three x y z).version := by
  have hdot (s : List Char) : Stops Char.isDigit ('.' :: s) := Text.stops_cons (by decide) s
  have hpatch := number_toDigits .patch z (Text.stops_nil Char.isDigit)
  rw [List.append_nil] at hpatch
  simp [parse, number_toDigits _ _ (hdot _), hpatch, dot, marked, version, bind,
    Except.bind]

/-- A plain version consists of digits and dots. -/
theorem mem_text {p : Plain} {c : Char} (h : c ∈ p.text.toList) : c.isDigit = true ∨ c = '.' := by
  have hdigit {n : Nat} (hc : c ∈ Nat.toDigits 10 n) : c.isDigit = true :=
    Nat.isDigit_of_mem_toDigits (by decide) (by decide) hc
  cases p with
  | one x =>
    rw [toList_text_one] at h
    exact .inl (hdigit h)
  | two x y =>
    rw [toList_text_two, List.mem_append, List.mem_cons] at h
    rcases h with h | rfl | h
    exacts [.inl (hdigit h), .inr rfl, .inl (hdigit h)]
  | three x y z =>
    rw [toList_text_three, List.mem_append, List.mem_cons, List.mem_append, List.mem_cons] at h
    rcases h with h | rfl | h | rfl | h
    exacts [.inl (hdigit h), .inr rfl, .inl (hdigit h), .inr rfl, .inl (hdigit h)]

theorem trimmed_text (p : Plain) : Text.Trimmed p.text.toList := by
  refine Text.trimmed_of_forall fun c hc => ?_
  rcases mem_text hc with h | rfl
  · exact Text.isBlank_of_isDigit h
  · decide

theorem padded_text (p : Plain) : padded p.text.toList = p.filled.text.toList := by
  have hmark : Stops (· == 'v') p.text.toList := by
    intro c hc
    rcases mem_text (List.mem_of_mem_head? hc) with h | rfl
    · rw [beq_eq_false_iff_ne]
      rintro rfl
      cases h
    · decide
  have hdots (n : Nat) : (Nat.toDigits 10 n).count '.' = 0 := by
    refine List.count_eq_zero.mpr fun h => ?_
    cases Nat.isDigit_of_mem_toDigits (by decide) (by decide) h
  rw [padded, Text.trim_of_trimmed (trimmed_text p), Text.dropWhile_of_stops hmark]
  cases p <;> simp [filled, hdots]

theorem parseLenient_text (p : Plain) : parseLenient p.text = .ok p.version := by
  rw [parseLenient, padded_text, ← version_filled p]
  cases p <;> exact parse_text_three ..

end Plain

/-! ### What stands around a version -/

/-- Blanks on both sides of a version, and marks right before it. -/
structure Adornment where
  before : List Char := []
  marks : Nat := 0
  after : List Char := []
  blank_before : ∀ c ∈ before, isBlank c = true := by decide
  blank_after : ∀ c ∈ after, isBlank c = true := by decide

def Adornment.around (a : Adornment) (s : String) : String :=
  String.ofList (a.before ++ (List.replicate a.marks 'v' ++ s.toList) ++ a.after)

/-- What stands around a version is dropped. -/
theorem parseLenient_around (a : Adornment) {s : String} (h : Stops isBlank s.toList) :
    parseLenient (a.around s) = parseLenient s := by
  have hmark : ∀ c ∈ List.replicate a.marks 'v', c = 'v' :=
    fun _ hc => List.eq_of_mem_replicate hc
  have htrim : Text.trim (a.around s).toList = List.replicate a.marks 'v' ++ Text.trim s.toList := by
    rw [Adornment.around, String.toList_ofList, Text.trim_append_blanks _ a.blank_after,
      Text.trim_blanks_append a.blank_before, Text.trim_append (fun c hc => ?_) h]
    rw [hmark c hc]
    decide
  have hdrop : (Text.trim (a.around s).toList).dropWhile (· == 'v') =
      (Text.trim s.toList).dropWhile (· == 'v') := by
    rw [htrim, List.dropWhile_append_of_pos fun c hc => beq_iff_eq.mpr (hmark c hc)]
  rw [parseLenient, parseLenient, padded, padded, hdrop]

/-! ### Order -/

/-- The numbers of a version in lexicographic order. -/
def key (v : SemVer) : Nat ×ₗ Nat ×ₗ Nat := toLex (v.major, toLex (v.minor, v.patch))

theorem isLE_then (a b : Nat) (o : Ordering) :
    ((compare a b).then o).isLE = true ↔ a < b ∨ a = b ∧ o.isLE = true := by
  rw [Ordering.isLE_then_iff_or, Nat.compare_eq_lt, Nat.compare_eq_eq]

/-- Versions that are nothing but numbers are ordered by them. -/
theorem le_iff_key_le {a b : SemVer} (ha : a.pre = "" ∧ a.build = "")
    (hb : b.pre = "" ∧ b.build = "") : a.le b = true ↔ a.key ≤ b.key := by
  have htail : ((comparePre a.pre b.pre).then (compareBuild a.build b.build)) = .eq := by
    rw [ha.1, ha.2, hb.1, hb.2]
    decide
  rw [le, SemVer.compare, isLE_then, isLE_then, htail, Ordering.then_eq, Nat.isLE_compare, key, key,
    Prod.Lex.toLex_le_toLex, Prod.Lex.toLex_le_toLex]

theorem Plain.le_version (p q : Plain) :
    p.version.le q.version = decide (p.version.key ≤ q.version.key) := by
  rw [Bool.eq_iff_iff, decide_eq_true_iff]
  refine le_iff_key_le ?_ ?_
  · cases p <;> exact ⟨rfl, rfl⟩
  · cases q <;> exact ⟨rfl, rfl⟩

end SemVer

namespace Profile

open SemVer

/-- A plain version lies in a window between two others exactly when its numbers lie between theirs
in lexicographic order. For each of the three the written numbers, blanks on both sides and marks
before it do not matter otherwise: numbers left out are zero. -/
theorem window_is_lexicographic (p : Profile) (before within after : Adornment) (lo v hi : Plain) :
    let q := { p with minVersion := before.around lo.text, maxVersion := after.around hi.text }
    q.supportsVersion (within.around v.text) =
      .ok (decide (lo.version.key ≤ v.version.key ∧ v.version.key ≤ hi.version.key)) := by
  have hread (a : Adornment) (x : Plain) : parseLenient (a.around x.text) = .ok x.version := by
    rw [parseLenient_around a x.trimmed_text.1, x.parseLenient_text]
  simp [supportsVersion, inWindow, hread, Plain.le_version, bind, Except.bind, pure, Except.pure]

/-- The text of the upper end is greater, its number is not. -/
example : (({ minVersion := "8.0", maxVersion := " v9.4.0 " } : Profile).supportsVersion
    "vv10").toOption = some false := by decide +kernel

end Profile

end RuleExchange
