import Mathlib.Data.List.Forall2
import RuleExchange.Proofs.Sequencing
import RuleExchange.Query.Reader
import RuleExchange.Query.Writer

/-! What stands behind a stage of a query. Once a trailing clause or a command has been kept as a
stage, the later parts of the query are kept as stages too, in their order, so that a filter behind
an aggregation stays there when the query is written again. One command is an exception: a regular
expression is read as a condition wherever it stands, and is then written in front of the stage
that it followed. -/

namespace RuleExchange.Query

open Text.Quoted (split)

/-- Whether a part of a query is a command with a regular expression. -/
def isRegexPart (part : List Char) : Bool :=
  String.ofList (Text.asciiLower (splitCommand (Text.trim part)).1) = "regex"

/-- The condition of such a command. -/
def readRegexPart (d : Dialect) (part : List Char) : Except Error Condition :=
  readRegexCommand d (splitCommand (Text.trim part)).2

/-- A part of a query as a stage. -/
def stageOf (d : Dialect) (part : List Char) : Stage := ⟨d.id, String.ofList (Text.trim part)⟩

/-! ### One part -/

/-- What one more part adds to what has been read: the condition of a regular expression, further
terms as long as there is no stage, or a stage. -/
theorem readCommand_cases {d : Dialect} {b b' : RuleBody} {part : List Char}
    (h : readCommand d b part = .ok b') :
    (isRegexPart part = true ∧ ∃ c, readRegexPart d part = .ok c ∧
      b' = { b with conditions := b.conditions ++ [c] }) ∨
    (isRegexPart part = false ∧ b.stages = [] ∧ ∃ cs,
      b' = { b with conditions := b.conditions ++ cs }) ∨
    (isRegexPart part = false ∧ b' = { b with stages := b.stages ++ [stageOf d part] }) := by
  simp only [readCommand] at h
  split at h
  · cases h
  split at h
  · rename_i hword
    obtain ⟨c, hc, h⟩ := ok_of_bind h
    cases h
    exact .inl ⟨decide_eq_true hword, c, hc, rfl⟩
  · rename_i hword
    have hpart : isRegexPart part = false := decide_eq_false hword
    split at h
    · rename_i hfilter
      obtain ⟨ts, -, h⟩ := ok_of_bind h
      obtain ⟨cs, -, h⟩ := ok_of_bind h
      cases h
      exact .inr (.inl ⟨hpart, List.isEmpty_iff.mp hfilter.2, cs, rfl⟩)
    · cases h
      exact .inr (.inr ⟨hpart, rfl⟩)

/-! ### All parts behind a stage -/

/-- Behind a stage the regular expressions are read as conditions and all other parts as stages. -/
theorem readCommands_of_stages {d : Dialect} {b b' : RuleBody} {parts : List (List Char)}
    (hs : b.stages ≠ []) (h : readCommands d b parts = .ok b') :
    ∃ cs, List.Forall₂ (fun part c => readRegexPart d part = .ok c) (parts.filter isRegexPart) cs ∧
      b' = { b with
        conditions := b.conditions ++ cs
        stages := b.stages ++ (parts.filter fun part => !isRegexPart part).map (stageOf d) } := by
  induction parts generalizing b with
  | nil =>
    cases h
    exact ⟨[], .nil, by simp⟩
  | cons part parts ih =>
    obtain ⟨b₁, hpart, hparts⟩ := ok_of_bind h
    rcases readCommand_cases hpart with ⟨hregex, c, hc, rfl⟩ | ⟨-, hnone, -⟩ | ⟨hregex, rfl⟩
    · have hkept : { b with conditions := b.conditions ++ [c] }.stages ≠ [] := hs
      obtain ⟨cs, hcs, rfl⟩ := ih hkept hparts
      refine ⟨c :: cs, ?_, by simp [hregex]⟩
      rw [List.filter_cons_of_pos hregex]
      exact .cons hc hcs
    · exact absurd hnone hs
    · obtain ⟨cs, hcs, rfl⟩ := ih (by simp) hparts
      refine ⟨cs, ?_, by simp [hregex]⟩
      rwa [List.filter_cons_of_neg (by simp [hregex])]

theorem readCommands_append (d : Dialect) (b : RuleBody) (before after : List (List Char)) :
    readCommands d b (before ++ after) =
      readCommands d b before >>= fun b => readCommands d b after := by
  induction before generalizing b with
  | nil => rfl
  | cons part parts ih =>
    simp only [List.cons_append, readCommands]
    cases readCommand d b part with
    | error e => rfl
    | ok b₁ => exact ih b₁

/-! ### The whole query -/

/-- What has been read of a query when its first part and some of the parts behind it have been
read. -/
def readParts (d : Dialect) (first : List Char) (parts : List (List Char)) :
    Except Error RuleBody := do
  let b ← readFilter d first
  readCommands d b parts

theorem readParts_of_parse {d : Dialect} {s first : List Char} {parts : List (List Char)}
    {b : RuleBody} (hs : split ['|'] s = first :: parts) (h : parse d s = .ok b) :
    readParts d first parts = .ok b ∧ b.conditions ≠ [] := by
  simp only [parse, hs] at h
  obtain ⟨b₀, hfirst, h⟩ := ok_of_bind h
  obtain ⟨b₁, hparts, h⟩ := ok_of_bind h
  split at h
  · cases h
  · rename_i hne
    cases h
    refine ⟨?_, by simpa using hne⟩
    simp only [readParts, hfirst]
    exact hparts

theorem readParts_append {d : Dialect} {first : List Char} {before after : List (List Char)}
    {b : RuleBody} (h : readParts d first (before ++ after) = .ok b) :
    ∃ b₁, readParts d first before = .ok b₁ ∧ readCommands d b₁ after = .ok b := by
  obtain ⟨b₀, hfirst, h⟩ := ok_of_bind h
  rw [readCommands_append] at h
  obtain ⟨b₁, hbefore, hafter⟩ := ok_of_bind h
  refine ⟨b₁, ?_, hafter⟩
  simp only [readParts, hfirst]
  exact hbefore

/-- A body with more stages is written with the texts of these stages behind. -/
theorem render_append_stages {d : Dialect} {b : RuleBody} (hne : b.conditions ≠ [])
    (parts : List (List Char)) :
    ∃ text, render d b = .ok text ∧
      render d { b with stages := b.stages ++ parts.map (stageOf d) } =
        .ok (text ++ parts.flatMap fun part => d.stageSeparator.toList ++ Text.trim part) := by
  refine ⟨_, if_neg (by simpa using hne), ?_⟩
  rw [render, if_neg (by simpa using hne)]
  simp [List.flatMap_map, stageOf]

/-- Wherever a query that can be read is cut behind a stage, the parts that follow are a condition
for each regular expression among them and a stage for each other part, in their order. So no
condition comes from behind a stage, and every part behind it is kept as a stage, exactly when none
of them is a regular expression; the query is then written again as it was read up to there, with
the later parts in their order behind. -/
theorem parts_behind_stage {d : Dialect} {s : List Char} {b : RuleBody} (h : parse d s = .ok b)
    {first : List Char} {before after : List (List Char)}
    (hs : split ['|'] s = first :: (before ++ after)) :
    ∃ b₁, readParts d first before = .ok b₁ ∧ (b₁.stages ≠ [] →
      (∃ cs, List.Forall₂ (fun part c => readRegexPart d part = .ok c)
          (after.filter isRegexPart) cs ∧
        b = { b₁ with
          conditions := b₁.conditions ++ cs
          stages := b₁.stages ++ (after.filter fun part => !isRegexPart part).map (stageOf d) }) ∧
      ((b.conditions = b₁.conditions ∧ b.stages = b₁.stages ++ after.map (stageOf d)) ↔
        ∀ part ∈ after, isRegexPart part = false) ∧
      ((∀ part ∈ after, isRegexPart part = false) → ∃ text, render d b₁ = .ok text ∧
        render d b =
          .ok (text ++ after.flatMap fun part => d.stageSeparator.toList ++ Text.trim part))) := by
  obtain ⟨hparts, hne⟩ := readParts_of_parse hs h
  obtain ⟨b₁, hbefore, hafter⟩ := readParts_append hparts
  refine ⟨b₁, hbefore, fun hstages => ?_⟩
  obtain ⟨cs, hcs, hb⟩ := readCommands_of_stages hstages hafter
  have hkept (hnone : ∀ part ∈ after, isRegexPart part = false) :
      b = { b₁ with stages := b₁.stages ++ after.map (stageOf d) } := by
    have hregex : after.filter isRegexPart = [] := List.filter_eq_nil_iff.mpr (by simpa using hnone)
    have hother : (after.filter fun part => !isRegexPart part) = after :=
      List.filter_eq_self.mpr (by simpa using hnone)
    rw [hregex, List.forall₂_nil_left_iff] at hcs
    rw [hb, hcs, hother, List.append_nil]
  refine ⟨⟨cs, hcs, hb⟩, ⟨fun ⟨hconds, _⟩ => ?_, fun hnone => ?_⟩, fun hnone => ?_⟩
  · -- each regular expression has given a condition, and there is none
    have hnil : cs = [] := by simpa [hb] using hconds
    rw [hnil, List.forall₂_nil_right_iff] at hcs
    simpa using List.filter_eq_nil_iff.mp hcs
  · rw [hkept hnone]
    exact ⟨rfl, rfl⟩
  · have hb₁ : b₁.conditions ≠ [] := by
      rw [hkept hnone] at hne
      exact hne
    rw [hkept hnone]
    exact render_append_stages hb₁ after

/-- A filter behind a grouping stays behind it. -/
theorem filter_behind_clause_is_kept :
    let first := "search user=\"bob\" group by host ".toList
    let later := " search count=\"3\"".toList
    ∃ b b₁ text, parse .splunk (first ++ '|' :: later) = .ok b ∧
      readParts .splunk first [] = .ok b₁ ∧ b₁.stages ≠ [] ∧ b.conditions = b₁.conditions ∧
      b.stages = b₁.stages ++ [⟨"splunk", "search count=\"3\""⟩] ∧ render .splunk b₁ = .ok text ∧
      render .splunk b = .ok (text ++ " | search count=\"3\"".toList) := by
  intro first later
  have hsplit : split ['|'] (first ++ '|' :: later) = first :: ([] ++ [later]) := by
    decide
  have hplain : ∀ part ∈ [later], isRegexPart part = false := by decide
  have hfirst : (readParts .splunk first []).toOption =
      some { conditions := [⟨"user", .equals, "bob"⟩], stages := [⟨"splunk", "group by host"⟩] } := by
    decide +kernel
  cases h : parse .splunk (first ++ '|' :: later) with
  | error e =>
    have hok : (parse .splunk (first ++ '|' :: later)).isOk = true := by decide +kernel
    rw [h] at hok
    cases hok
  | ok b =>
    obtain ⟨b₁, hread, hbehind⟩ := parts_behind_stage h hsplit
    rw [hread] at hfirst
    cases hfirst
    obtain ⟨-, hkept, hwritten⟩ := hbehind (by simp)
    obtain ⟨hconds, hstages⟩ := hkept.mpr hplain
    obtain ⟨text, htext, hagain⟩ := hwritten hplain
    have hstage : stageOf .splunk later = ⟨"splunk", "search count=\"3\""⟩ := by decide
    have htail : [later].flatMap (fun part => Dialect.splunk.stageSeparator.toList ++
        Text.trim part) = " | search count=\"3\"".toList := by decide
    rw [List.map_singleton, hstage] at hstages
    rw [htail] at hagain
    exact ⟨b, _, text, rfl, hread, by simp, hconds, hstages, htext, hagain⟩

/-- A regular expression behind an aggregation is read as a condition, and is written in front of
it. -/
theorem regex_moves_in_front_of_stage :
    let first := "search user=\"bob\" ".toList
    let stage := " stats count by host ".toList
    let later := " regex host=\"^web\"".toList
    let kept : Stage := ⟨"splunk", "stats count by host"⟩
    split ['|'] (first ++ '|' :: stage ++ '|' :: later) = first :: ([stage] ++ [later]) ∧
    (readParts .splunk first [stage]).toOption =
      some { conditions := [⟨"user", .equals, "bob"⟩], stages := [kept] } ∧
    (parse .splunk (first ++ '|' :: stage ++ '|' :: later)).toOption =
      some { conditions := [⟨"user", .equals, "bob"⟩, ⟨"hostname", .regex, "^web"⟩],
             stages := [kept] } ∧
    ((parse .splunk (first ++ '|' :: stage ++ '|' :: later)).bind (render .splunk)).toOption =
      some "search user=\"bob\" | regex host=\"^web\" | stats count by host".toList := by
  decide +kernel

end RuleExchange.Query
