import RuleExchange.Proofs.CommentScan
import RuleExchange.Query.Writer

/-! Marks of comments in written queries. A query is fields and quoted texts, with signs, words
and separators between them. What stands between marks nothing and brings a scan back inside
a line, so a scan passes the query where it passes each of its fields and texts. -/

namespace RuleExchange.Query

open Comment (Passes Settles scan scan_append_of scan_settled scan_loop start)
open Comment.Place (inside)
open Text (isBlank)

/-- The text that a term has between quotes. -/
def written (d : Dialect) (c : Condition) : String :=
  match c.operator with
  | .equals =>
    if d.like.isSome && (c.hasInnerWildcard || c.isMatchAll) then c.toPattern d.wildcard
    else c.value
  | .contains | .startsWith | .endsWith =>
    if d.like.isNone && d.keywordOperators then c.value else c.toPattern d.wildcard
  | .notEquals | .regex => c.value

/-- The words that may stand between a field and a quoted text. -/
def words (d : Dialect) : List String :=
  d.like.toList ++ d.regex.word :: Operator.all.map Operator.keyword

/-- What may stand between a field and a quoted text. -/
def joints (d : Dialect) : List (List Char) :=
  let gap := if d.spaced then [' '] else []
  ['='] :: (["=", "!="].map fun sign => gap ++ sign.toList ++ gap) ++
    (words d).map fun word => ' ' :: word.toList ++ [' ']

section Terms

variable {d : Dialect}

theorem like_mem_words {like : String} (h : d.like = some like) : like ∈ words d := by
  simp [words, h]

theorem regex_mem_words : d.regex.word ∈ words d :=
  List.mem_append_right _ List.mem_cons_self

theorem keyword_mem_words (op : Operator) : op.keyword ∈ words d := by
  have hop : op ∈ Operator.all := by cases op <;> decide
  exact List.mem_append_right _ (List.mem_cons_of_mem _ (List.mem_map_of_mem hop))

theorem signTerm_eq {sign : String} (h : sign ∈ ["=", "!="]) (field v : String) :
    ∃ joint ∈ joints d, signTerm d field sign v = field.toList ++ (joint ++ quoted d v) :=
  ⟨_, List.mem_append_left _ (List.mem_cons_of_mem _ (List.mem_map_of_mem h)), by simp [signTerm]⟩

theorem wordTerm_eq {word : String} (h : word ∈ words d) (field v : String) :
    ∃ joint ∈ joints d, wordTerm d field word v = field.toList ++ (joint ++ quoted d v) :=
  ⟨_, List.mem_append_right _ (List.mem_map_of_mem h), by simp [wordTerm]⟩

/-- Every term is a field, a joint and a quoted text. -/
theorem term_eq (d : Dialect) (c : Condition) :
    ∃ joint ∈ joints d, term d c =
      (d.fields.platformOrKeep c.field).toList ++ (joint ++ quoted d (written d c)) := by
  obtain ⟨field, op, value⟩ := c
  cases op with
  | equals =>
    cases h : d.like with
    | none => simpa [term, written, h] using signTerm_eq (by decide) _ value
    | some like =>
      by_cases hwild : (Condition.hasInnerWildcard ⟨field, .equals, value⟩ ||
          Condition.isMatchAll ⟨field, .equals, value⟩) = true
      · simpa [term, written, h, hwild] using wordTerm_eq (like_mem_words h) _ _
      · simpa [term, written, h, hwild] using signTerm_eq (by decide) _ value
  | notEquals => exact signTerm_eq (by decide) _ value
  | regex => exact wordTerm_eq regex_mem_words _ value
  | contains | startsWith | endsWith =>
    cases h : d.like with
    | some like => simpa [term, written, h] using wordTerm_eq (like_mem_words h) _ _
    | none =>
      cases hkey : d.keywordOperators with
      | true => simpa [term, written, h, hkey] using wordTerm_eq (keyword_mem_words _) _ value
      | false => simpa [term, written, h, hkey] using signTerm_eq (by decide) _ _

end Terms

theorem written_of_isCommand {d : Dialect} {c : Condition} (h : isCommand d c = true) :
    written d c = c.value := by
  have hregex : c.operator = .regex := by
    unfold isCommand at h
    split at h
    · rename_i hop _
      exact hop
    · cases h
  simp [written, hregex]

theorem command_parts (d : Dialect) (c : Condition) :
    " | ".toList ++ command d c = (" | ".toList ++ d.regex.word.toList ++ [' ']) ++
      (((d.fields.platformOrKeep c.field).toList ++ ['=']) ++ quoted d c.value) := by
  simp [command]

/-- Every condition of a query is written with a text in quotes. -/
theorem quoted_occurs {d : Dialect} {b : RuleBody} {t : List Char} (ht : render d b = .ok t)
    {c : Condition} (hc : c ∈ b.conditions) : quoted d (written d c) <:+: t := by
  unfold render at ht
  split at ht
  · cases ht
  · cases ht
    let terms := b.conditions.filter fun c => !isCommand d c
    let commands := b.conditions.filter (isCommand d)
    by_cases hcommand : isCommand d c = true
    · have hmem : c ∈ commands := List.mem_filter.mpr ⟨hc, hcommand⟩
      have hpart : quoted d (written d c) <:+: " | ".toList ++ command d c := by
        rw [written_of_isCommand hcommand, command_parts, ← List.append_assoc]
        exact (List.suffix_append _ _).isInfix
      have hall := hpart.trans (Text.infix_flatMap hmem fun c => " | ".toList ++ command d c)
      exact hall.trans ((List.suffix_append _ _).isInfix.trans (List.prefix_append _ _).isInfix)
    · have hmem : c ∈ terms := List.mem_filter.mpr ⟨hc, by simpa using hcommand⟩
      have hpart : quoted d (written d c) <:+: term d c := by
        obtain ⟨joint, -, he⟩ := term_eq d c
        rw [he, ← List.append_assoc]
        exact (List.suffix_append _ _).isInfix
      have hjoin : term d c <:+: filterText d terms := by
        have hne : terms.isEmpty = false :=
          List.isEmpty_eq_false_iff.mpr (List.ne_nil_of_mem hmem)
        rw [filterText, hne]
        exact Text.infix_joinWith (List.mem_map_of_mem hmem)
      refine (hpart.trans hjoin).trans ((List.suffix_append d.lead.toList _).isInfix.trans ?_)
      rw [List.append_assoc]
      exact (List.prefix_append _ _).isInfix

theorem written_occurs {d : Dialect} {b : RuleBody} {t : List Char} (ht : render d b = .ok t)
    {c : Condition} (hc : c ∈ b.conditions) :
    Text.marked (fun x => x = '\\' ∨ x = d.quote) (written d c).toList <:+: t := by
  refine List.IsInfix.trans ?_ (quoted_occurs ht hc)
  rw [quoted, Text.Quoted.enclose, Text.escape_eq_marked]
  exact ⟨[d.quote], [d.quote], by simp⟩

/-- What stands between the texts of a query marks nothing and ends inside a line. -/
structure Silent (d : Dialect) (style : CommentStyle) : Prop where
  quote : Settles style [d.quote]
  quote_solid : isBlank d.quote = false ∧ d.quote ≠ '\x60'
  joints : ∀ joint ∈ joints d, Settles style joint
  command : Settles style (" | ".toList ++ d.regex.word.toList ++ [' '])
  conjunction : Settles style d.conjunction.toList
  lead : scan style (start style) d.lead.toList ∈ [some (start style), some inside]
  wildcard : Passes style (start style) (d.lead.toList ++ [d.wildcard])

section Silent

variable {d : Dialect} {style : CommentStyle} (hd : Silent d style)
include hd

theorem Silent.quoted {v : String} (hv : Passes style inside v.toList) (q : Comment.Place) :
    scan style q (quoted d v) = some inside := by
  have hmarks : ∀ c, decide (c = '\\' ∨ c = d.quote) = true → isBlank c = false ∧ c ≠ '\x60' := by
    intro c hc
    rcases of_decide_eq_true hc with rfl | rfl
    · decide
    · exact hd.quote_solid
  have henclosed := Comment.scan_enclosed hd.quote hmarks hv q
  rwa [← Text.escape_eq_marked, ← List.cons_append] at henclosed

theorem Silent.term {c : Condition} {q : Comment.Place}
    (hfield : Passes style q (d.fields.platformOrKeep c.field).toList)
    (hv : Passes style inside (written d c).toList) : scan style q (term d c) = some inside := by
  obtain ⟨joint, hjoint, hterm⟩ := term_eq d c
  rw [hterm, ← List.append_assoc, scan_append_of (scan_settled hfield (hd.joints joint hjoint)),
    hd.quoted hv]

theorem Silent.command_passes {c : Condition}
    (hfield : Passes style inside (d.fields.platformOrKeep c.field).toList)
    (hv : Passes style inside c.value.toList) (q : Comment.Place) :
    scan style q (" | ".toList ++ Query.command d c) = some inside := by
  rw [command_parts, scan_append_of (hd.command.scan_eq q),
    scan_append_of (scan_settled hfield (hd.joints ['='] List.mem_cons_self)), hd.quoted hv]

/-- Terms joined by the conjunction, from the start of the rule or from inside a line. -/
theorem Silent.terms {cs : List Condition} (hcs : cs ≠ [])
    (hfields : ∀ c ∈ cs, Passes style (start style) (d.fields.platformOrKeep c.field).toList)
    (hvalues : ∀ c ∈ cs, Passes style inside (written d c).toList) {q : Comment.Place}
    (hq : q = start style ∨ q = inside) :
    scan style q (Text.joinWith d.conjunction.toList (cs.map (Query.term d))) = some inside := by
  obtain ⟨c, cs, rfl⟩ := List.exists_cons_of_ne_nil hcs
  rw [List.forall_mem_cons] at hfields hvalues
  have hfirst : Passes style q (d.fields.platformOrKeep c.field).toList := by
    rcases hq with rfl | rfl
    · exact hfields.1
    · exact hfields.1.inside
  rw [List.map_cons, Text.joinWith_cons, scan_append_of (hd.term hfirst hvalues.1)]
  refine scan_loop fun t ht => ?_
  obtain ⟨c', hc', rfl⟩ := List.mem_map.mp ht
  rw [scan_append_of (hd.conjunction.scan_eq inside),
    hd.term (hfields.2 c' hc').inside (hvalues.2 c' hc')]

theorem Silent.passes_render {b : RuleBody} (hb : b.stages = [])
    (hfields : ∀ c ∈ b.conditions,
      Passes style (start style) (d.fields.platformOrKeep c.field).toList)
    (hvalues : ∀ c ∈ b.conditions, Passes style inside (written d c).toList) {t : List Char}
    (ht : render d b = .ok t) : Passes style (start style) t := by
  unfold render at ht
  split at ht
  · cases ht
  · cases ht
    let terms := b.conditions.filter fun c => !isCommand d c
    let commands := b.conditions.filter (isCommand d)
    have hfilter : Passes style (start style) (d.lead.toList ++ filterText d terms) := by
      unfold filterText
      split
      · exact hd.wildcard
      · rename_i hterms
        have hlead : ∃ q, (q = start style ∨ q = inside) ∧
            scan style (start style) d.lead.toList = some q := by
          have hmem := hd.lead
          simp only [List.mem_cons, List.not_mem_nil, or_false] at hmem
          rcases hmem with h | h
          · exact ⟨_, .inl rfl, h⟩
          · exact ⟨_, .inr rfl, h⟩
        obtain ⟨q, hq, hscan⟩ := hlead
        have hne : terms ≠ [] := by simpa using hterms
        have hall := hd.terms hne
          (fun c hc => hfields c (List.mem_of_mem_filter hc))
          (fun c hc => hvalues c (List.mem_of_mem_filter hc)) hq
        rw [Passes, scan_append_of hscan, hall]
        rfl
    have hcommands (q : Comment.Place) :
        Passes style q (commands.flatMap fun c => " | ".toList ++ Query.command d c) := by
      refine Comment.passes_flatMap (fun c hc q => ?_) q
      have hmem : c ∈ b.conditions := List.mem_of_mem_filter hc
      have hvalue : written d c = c.value := written_of_isCommand (List.of_mem_filter hc)
      exact hd.command_passes (hfields c hmem).inside (hvalue ▸ hvalues c hmem) q
    rw [hb, List.flatMap_nil, List.append_nil]
    exact Comment.passes_append hfilter hcommands

end Silent

theorem silent_siem : Silent .siem .hash where
  quote := by decide
  quote_solid := by decide
  joints := by decide
  command := by decide
  conjunction := by decide
  lead := by decide
  wildcard := by decide

theorem silent_splunk : Silent .splunk .backticks where
  quote := by decide
  quote_solid := by decide
  joints := by decide
  command := by decide
  conjunction := by decide
  lead := by decide
  wildcard := by decide

theorem silent_qradar : Silent .qradar .block where
  quote := by decide
  quote_solid := by decide
  joints := by decide
  command := by decide
  conjunction := by decide
  lead := by decide
  wildcard := by decide

end RuleExchange.Query
