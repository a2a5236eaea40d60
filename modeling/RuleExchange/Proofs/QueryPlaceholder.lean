import RuleExchange.Proofs.QueryRoundTrip

/-! Queries that consist of commands only. Where regular expressions are commands, a rule that has
nothing else leaves the filter empty, and the wildcard alone is written in its place. The reader
takes that wildcard for a word to be searched for, and so reads one condition more than was
written: the first, on the payload, which every event satisfies. Written and read once more, the
query stays as it is. -/

namespace RuleExchange.Query

open Text (Stops isBlank)

/-- The condition that a wildcard alone is read as. -/
def anyPayload : Condition := ⟨Field.payload, .equals, "*"⟩

/-- A word at the end of a filter is searched for in the payload. -/
theorem reads_freeText {d : Dialect} {w : List Char} (hw : isTermWord w = true) :
    Reads d [.word w] [freeText d w false] := by
  intro ts hts
  obtain ⟨t, _, rfl, ht, hts⟩ := List.map_eq_cons_iff.mp hts
  cases List.map_eq_nil_iff.mp hts
  simp only [isTermWord, Bool.and_eq_true, Bool.not_eq_true'] at hw
  rw [readTerms.eq_def]
  simp [ht, hw]

theorem denotes_placeholder {gap : List Char} (hg : ∀ c ∈ gap, isBlank c = true) :
    Denotes .splunk ('*' :: gap) [anyPayload] := by
  have hstop : Stops (fun c => !endsWord c) (gap ++ []) :=
    stops_blanks endsWord_of_isBlank hg (Text.stops_nil _)
  have hend : Lexes (gap ++ []) [] := lexes_blanks hg lexes_nil
  rw [List.append_nil] at hstop hend
  have hread : freeText .splunk ['*'] false = anyPayload := by decide
  refine ⟨[.word ['*']], lexes_word (w := ['*']) (by decide) hstop hend, ?_, by decide⟩
  rw [← hread]
  exact reads_freeText (by decide)

/-- The filter that stands for no terms is read as a term. -/
theorem isFilter_placeholder : IsFilter .splunk (filterText .splunk []) [anyPayload] := by
  refine ⟨uncut_of_isPlain (by decide), fun gap hg => ?_⟩
  have hblank : ∀ c ∈ [' '], isBlank c = true := List.forall_mem_singleton.mpr rfl
  refine readFilter_of_denotes ?_ (denotes_blanks hblank (denotes_placeholder hg))
  rw [List.append_assoc, dropLead_search]
  rfl

theorem isCommand_of_regex {c : Condition} (h : c.operator = .regex) :
    isCommand .splunk c = true := by
  simp [isCommand, h, Dialect.splunk]

/-- A rule with regular expressions alone is read back with one condition more, which every event
satisfies, in front of them. That condition is then written and read as it is. -/
theorem regex_commands_gain_placeholder {b : RuleBody} (hne : b.conditions ≠ [])
    (hf : ∀ c ∈ b.conditions, c.field ∈ Field.all)
    (hregex : ∀ c ∈ b.conditions, c.operator = .regex) (hstages : b.stages = []) :
    ∃ text body, render .splunk b = .ok text ∧ parse .splunk text = .ok body ∧
      body.stages = [] ∧ body.conditions = anyPayload :: b.conditions ∧
      anyPayload.isMatchAll = true ∧
      ∃ again, render .splunk body = .ok again ∧ parse .splunk again = .ok body := by
  have hcmd : ∀ c ∈ b.conditions, isCommand .splunk c = true := fun c hc =>
    isCommand_of_regex (hregex c hc)
  have hterms : b.conditions.filter (fun c => !isCommand .splunk c) = [] :=
    List.filter_eq_nil_iff.mpr (by simpa using hcmd)
  have hcommands : b.conditions.filter (isCommand .splunk) = b.conditions :=
    List.filter_eq_self.mpr hcmd
  have hany : isCommand .splunk anyPayload = false := rfl
  have hform : ∀ c ∈ [anyPayload], TermForm .splunk c := List.forall_mem_singleton.mpr
    (termForm readable_splunk rfl (by decide))
  have hpayload : ∀ c ∈ [anyPayload], c.field ∈ Field.all :=
    List.forall_mem_singleton.mpr (by decide)
  refine ⟨_, { conditions := [anyPayload] ++ b.conditions }, ?_,
    parse_of_filter readable_splunk (by simp) isFilter_placeholder hf hcmd, rfl, rfl,
    by decide, _, ?_, parse_of_filter readable_splunk (by simp)
      (isFilter_filterText readable_splunk (by simp) hpayload hform) hf hcmd⟩
  · simp [render, hne, hstages, hterms, hcommands]
  · simp [render, hany, hterms, hcommands]

/-- The expressions may hold quotes, pipes and backslashes. -/
theorem awkward_expressions_gain_placeholder :
    let path : Condition := ⟨Field.httpUri, .regex, "^/a|\"b\\.c"⟩
    let all : Condition := ⟨Field.payload, .regex, ".*"⟩
    ∃ text body, render .splunk { conditions := [path, all] } = .ok text ∧
      parse .splunk text = .ok body ∧ body.conditions = [anyPayload, path, all] := by
  intro path all
  obtain ⟨text, body, htext, hbody, -, hconds, -⟩ :=
    @regex_commands_gain_placeholder { conditions := [path, all] } (by simp) (by decide)
      (by decide) rfl
  exact ⟨text, body, htext, hbody, hconds⟩

/-- The placeholder of a lone regular expression comes back as a condition. -/
theorem lone_regex_gains_condition :
    (render .splunk { conditions := [⟨Field.payload, .regex, "x+"⟩] }).toOption =
      some "search * | regex _raw=\"x+\"".toList ∧
    (parse .splunk "search * | regex _raw=\"x+\"".toList).toOption =
      some { conditions := [anyPayload, ⟨Field.payload, .regex, "x+"⟩] } := by
  decide +kernel

end RuleExchange.Query
