import RuleExchange.Proofs.SignatureConditions

/-! What the options of a signature do to the conditions of its header. A content is put behind
them, and later flags change that content only. A flag that moves a content to its field takes
whatever condition is last, though: where it stands before every content, it takes the last
address of the header. A flag that turns a content into a comparison at an end looks for a
content and leaves addresses alone. -/

namespace RuleExchange.Signature

/-- The field to which a flag moves the condition before it. -/
def RuleOption.movesTo (o : RuleOption) : Option String :=
  if o.value.isSome then none
  else if o.key = "http_uri" then some Field.httpUri
  else if o.key = "dns_query" then some Field.dnsQuery
  else none

/-- The fields to which flags move what they find before the first content. -/
def earlyMoves (os : List RuleOption) : List String :=
  (os.takeWhile fun o => !o.detects).filterMap RuleOption.movesTo

/-- The conditions after the last of them was moved to one field after the other. -/
def moveLast (fields : List String) (cs : List Condition) : List Condition :=
  fields.foldl (fun cs field => retargetLast field cs) cs

/-! ### Moving the last condition -/

variable {fields : List String} {cs : List Condition}

theorem moveLast_nil (fields : List String) : moveLast fields [] = [] := by
  induction fields with
  | nil => rfl
  | cons field fields ih => exact ih

theorem moveLast_concat (fields : List String) (field : String) (cs : List Condition)
    (c : Condition) : moveLast (fields ++ [field]) (cs ++ [c]) = cs ++ [{ c with field }] := by
  induction fields generalizing c with
  | nil => exact modifyLast_append _ cs c
  | cons f fields ih =>
    have hfirst : retargetLast f (cs ++ [c]) = cs ++ [{ c with field := f }] :=
      modifyLast_append _ cs c
    rw [List.cons_append, moveLast, List.foldl_cons, hfirst]
    exact ih { c with field := f }

/-- Moving changes the conditions whenever it moves one of them to another field. -/
theorem moveLast_eq_self_iff (h : ∀ c ∈ cs, c.field ∉ fields) :
    moveLast fields cs = cs ↔ cs = [] ∨ fields = [] := by
  rcases List.eq_nil_or_concat fields with rfl | ⟨fs, field, rfl⟩
  · simp [moveLast]
  rcases List.eq_nil_or_concat cs with rfl | ⟨ds, c, rfl⟩
  · simp [moveLast_nil]
  rw [List.concat_eq_append] at h
  have hfield : c.field ≠ field := fun he => h c (by simp) (by simp [he])
  simp only [List.concat_eq_append, moveLast_concat, List.append_cancel_left_eq, List.cons.injEq,
    and_true, List.append_eq_nil_iff, List.cons_ne_nil, and_false, or_self, iff_false]
  exact fun he => hfield (congrArg Condition.field he).symm

theorem map_operator_retargetLast (field : String) (cs : List Condition) :
    (retargetLast field cs).map Condition.operator = cs.map Condition.operator := by
  rcases List.eq_nil_or_concat cs with rfl | ⟨ds, c, rfl⟩
  · rfl
  · simp [retargetLast, modifyLast_append]

theorem map_operator_moveLast (fields : List String) (cs : List Condition) :
    (moveLast fields cs).map Condition.operator = cs.map Condition.operator := by
  induction fields generalizing cs with
  | nil => rfl
  | cons field fields ih => exact (ih _).trans (map_operator_retargetLast field cs)

theorem length_moveLast (fields : List String) (cs : List Condition) :
    (moveLast fields cs).length = cs.length := by
  simpa using congrArg List.length (map_operator_moveLast fields cs)

/-- Without a content there is nothing to turn into a comparison at an end. -/
theorem reshapeLast_of_notMem (h : .contains ∉ cs.map Condition.operator) (op : Operator) :
    reshapeLast op cs = cs := by
  rcases List.eq_nil_or_concat cs with rfl | ⟨ds, c, rfl⟩
  · rfl
  · have hc : c.operator ≠ .contains := fun he => h (by simp [he])
    simp [reshapeLast, modifyLast_append, hc]

/-! ### Options before the first content -/

theorem flagEdit_of_notMem (h : .contains ∉ cs.map Condition.operator) (key : String) :
    flagEdit key cs = moveLast (RuleOption.flag key).movesTo.toList cs := by
  unfold flagEdit RuleOption.movesTo RuleOption.flag
  repeat' split
  all_goals simp_all [moveLast, reshapeLast_of_notMem h]

theorem conditions_option_early {o : RuleOption} (ho : o.detects = false) {r : Reading}
    (h : .contains ∉ r.body.conditions.map Condition.operator) :
    (r.option o).body.conditions = moveLast o.movesTo.toList r.body.conditions := by
  obtain ⟨key, value, negated⟩ := o
  cases value with
  | none =>
    by_cases hmsg : key = "msg"
    · simp [Reading.option, RuleOption.movesTo, moveLast, hmsg]
    · have hmove := flagEdit_of_notMem h key
      simp only [Reading.option, if_neg hmsg, Reading.conditions_flag, hmove]
      rfl
  | some v =>
    have hstays : (RuleOption.mk key (some v) negated).touches = false := by
      simp [RuleOption.touches, ho]
    simp [Reading.conditions_option hstays, RuleOption.movesTo, moveLast]

theorem conditions_foldl_early {os : List RuleOption} (hos : ∀ o ∈ os, o.detects = false)
    {r : Reading} (h : .contains ∉ r.body.conditions.map Condition.operator) :
    (os.foldl Reading.option r).body.conditions =
      moveLast (os.filterMap RuleOption.movesTo) r.body.conditions := by
  induction os generalizing r with
  | nil => rfl
  | cons o os ih =>
    rw [List.forall_mem_cons] at hos
    have hone := conditions_option_early hos.1 h
    rw [List.foldl_cons, ih hos.2 (by rwa [hone, map_operator_moveLast]), hone]
    cases hmove : o.movesTo <;> simp [moveLast, hmove]

/-! ### Options behind a content -/

theorem exists_modifyLast_append (f : Condition → Condition) (before : List Condition)
    (hne : cs ≠ []) : ∃ cs', cs' ≠ [] ∧ modifyLast f (before ++ cs) = before ++ cs' := by
  obtain ⟨ds, c, rfl⟩ := (List.eq_nil_or_concat cs).resolve_left hne
  refine ⟨ds ++ [f c], by simp, ?_⟩
  rw [List.concat_eq_append, ← List.append_assoc, modifyLast_append, List.append_assoc]

theorem exists_flagEdit_append (key : String) (before : List Condition) (hne : cs ≠ []) :
    ∃ cs', cs' ≠ [] ∧ flagEdit key (before ++ cs) = before ++ cs' := by
  unfold flagEdit
  repeat' split
  all_goals first
    | exact exists_modifyLast_append _ before hne
    | exact ⟨cs, hne, rfl⟩

theorem exists_option_append (o : RuleOption) {r : Reading} {before : List Condition}
    (hr : r.body.conditions = before ++ cs) (hne : cs ≠ []) :
    ∃ cs', cs' ≠ [] ∧ (r.option o).body.conditions = before ++ cs' := by
  obtain ⟨key, value, negated⟩ := o
  by_cases hmsg : key = "msg"
  · exact ⟨cs, hne, by simpa [Reading.option, hmsg] using hr⟩
  · cases value with
    | none =>
      simpa [Reading.option, hmsg, Reading.conditions_flag, hr] using
        exists_flagEdit_append key before hne
    | some v =>
      obtain ⟨added, hadded, -⟩ := Reading.conditions_pair r key v negated
      exact ⟨cs ++ added, by simp [hne], by simp [Reading.option, hmsg, hadded, hr]⟩

theorem exists_option_of_detects {o : RuleOption} (ho : o.detects = true) (r : Reading) :
    ∃ c, (r.option o).body.conditions = r.body.conditions ++ [c] := by
  obtain ⟨key, value, negated⟩ := o
  cases value with
  | none => simp [RuleOption.detects] at ho
  | some v =>
    have hmsg : key ≠ "msg" := by
      rintro rfl
      simp [RuleOption.detects] at ho
    obtain ⟨added, hadded, hlength⟩ := Reading.conditions_pair r key v negated
    have hone : added.length = 1 := hlength.trans (if_pos ho)
    obtain ⟨c, rfl⟩ := List.length_eq_one_iff.mp hone
    exact ⟨c, by simp [Reading.option, hmsg, hadded]⟩

theorem exists_foldl_append (os : List RuleOption) {r : Reading} {before : List Condition}
    (hr : r.body.conditions = before ++ cs) (hne : cs ≠ []) :
    ∃ cs', (os.foldl Reading.option r).body.conditions = before ++ cs' := by
  induction os generalizing r cs with
  | nil => exact ⟨cs, hr⟩
  | cons o os ih =>
    obtain ⟨cs', hne', hone⟩ := exists_option_append o hr hne
    exact ih hone hne'

/-! ### The whole signature -/

theorem mem_headerConditions {h : NetworkHeader} {c : Condition} (hc : c ∈ headerConditions h) :
    c.field ∈ addressFields ∧ c.operator ≠ .contains := by
  obtain ⟨⟨field, value⟩, hmem, rfl⟩ := List.mem_map.mp hc
  have hfield : field ∈ addressFields :=
    List.mem_map_of_mem (f := Prod.fst) (List.mem_of_mem_filter hmem)
  simp only [addressCondition]
  split <;> exact ⟨hfield, by simp⟩

theorem notMem_earlyMoves {field : String} (h : field ∈ addressFields) (os : List RuleOption) :
    field ∉ earlyMoves os := by
  intro hmem
  obtain ⟨o, -, ho⟩ := List.mem_filterMap.mp hmem
  have hne : ∀ f ∈ addressFields, f ≠ Field.httpUri ∧ f ≠ Field.dnsQuery := by decide
  obtain ⟨huri, hquery⟩ := hne field h
  unfold RuleOption.movesTo at ho
  split at ho
  · cases ho
  split at ho
  · exact huri (Option.some.inj ho).symm
  split at ho
  · exact hquery (Option.some.inj ho).symm
  · cases ho

/-- The conditions of the body begin with those of the header, of which the early flags have moved
the last one, and each option that looks for something adds one behind them. -/
theorem exists_conditions_toBody (s : Signature) :
    ∃ contents, s.toBody.conditions =
        moveLast (earlyMoves s.options) (headerConditions s.header) ++ contents ∧
      contents.length = s.options.countP RuleOption.detects := by
  have hheader : .contains ∉ (headerConditions s.header).map Condition.operator := by
    intro hmem
    obtain ⟨c, hc, hop⟩ := List.mem_map.mp hmem
    exact (mem_headerConditions hc).2 hop
  let early := s.options.takeWhile fun o => !o.detects
  let late := s.options.dropWhile fun o => !o.detects
  let r := early.foldl Reading.option { body := headerBody s }
  have hsplit : s.options = early ++ late := List.takeWhile_append_dropWhile.symm
  have hearly : r.body.conditions =
      moveLast (earlyMoves s.options) (headerConditions s.header) :=
    conditions_foldl_early
      (fun o ho => by simpa using List.all_eq_true.mp List.all_takeWhile o ho) hheader
  have hread : s.toBody = (late.foldl Reading.option r).body := by
    rw [toBody, hsplit, List.foldl_append]
  have hcontents : ∃ contents, s.toBody.conditions = r.body.conditions ++ contents := by
    rw [hread]
    cases hlate : late with
    | nil => exact ⟨[], by simp⟩
    | cons o os =>
      have hdetects : o.detects = true := by
        have hfirst := List.head?_dropWhile_not (fun o : RuleOption => !o.detects) s.options
        simpa [late, hlate] using hfirst
      obtain ⟨c, hc⟩ := exists_option_of_detects hdetects r
      exact exists_foldl_append os hc (by simp)
  obtain ⟨contents, hcontents⟩ := hcontents
  refine ⟨contents, by rw [hcontents, hearly], ?_⟩
  have hlength : s.toBody.conditions.length =
      (headerConditions s.header).length + s.options.countP RuleOption.detects :=
    Reading.length_foldl_option s.options _
  rw [hcontents, hearly, List.length_append, length_moveLast] at hlength
  omega

/-- Whatever the options of a signature and their order: the conditions of its body begin with the
addresses of the header, in the order of the header, of which the flags that stand before the first
content have moved the last one to their field; so they begin with exactly the conditions of the
header unless there is such a flag and an address for it to take. -/
theorem header_conditions_kept_iff_no_early_move (s : Signature) :
    (∃ contents, s.toBody.conditions =
        moveLast (earlyMoves s.options) (headerConditions s.header) ++ contents ∧
      contents.length = s.options.countP RuleOption.detects) ∧
    (headerConditions s.header <+: s.toBody.conditions ↔
      headerConditions s.header = [] ∨ earlyMoves s.options = []) := by
  obtain ⟨contents, hcontents, hlength⟩ := exists_conditions_toBody s
  refine ⟨⟨contents, hcontents, hlength⟩, ?_⟩
  have hfields : ∀ c ∈ headerConditions s.header, c.field ∉ earlyMoves s.options :=
    fun c hc => notMem_earlyMoves (mem_headerConditions hc).1 s.options
  rw [← moveLast_eq_self_iff hfields, hcontents]
  constructor
  · rintro ⟨rest, hrest⟩
    exact (List.append_inj_left hrest (length_moveLast _ _).symm).symm
  · intro he
    rw [he]
    exact List.prefix_append _ _

/-- A flag in front of the content takes the port. -/
theorem early_flag_takes_port :
    let text := "alert tcp 10.0.0.5 any -> any 80 (msg:\"t\"; http_uri; content:\"x\";)"
    let s : Signature :=
      { action := "alert"
        header := { protocol := "tcp", source := "10.0.0.5", destinationPort := "80" }
        options := [.pair "msg" "t", .flag "http_uri", .pair "content" "x"] }
    (parse text.toList).toOption = some s ∧
    headerConditions s.header =
      [⟨Field.sourceIp, .equals, "10.0.0.5"⟩, ⟨Field.destinationPort, .equals, "80"⟩] ∧
    s.toBody.conditions =
      [⟨Field.sourceIp, .equals, "10.0.0.5"⟩, ⟨Field.httpUri, .equals, "80"⟩,
        ⟨Field.payload, .contains, "x"⟩] ∧
    ¬ headerConditions s.header <+: s.toBody.conditions := by
  decide +kernel

end RuleExchange.Signature
