import RuleExchange.Proofs.DocumentMembers
import RuleExchange.Proofs.JsonDecode

/-! Documents are read back. The text of a document is read as its members in order, and
from them every part of the body comes back: conditions under the keys of required
fields first, the listed ones behind them. -/

namespace RuleExchange.Document

open Json (sortMembers lookup OrderedByKey PlainWithin plainWithin_list plainWithin_texts
  plainWithin_table plainWithin_map plainWithin_unless)
open RuleBody (lookup_member)

/-! ### From text to members -/

variable {vendor : Vendor} {b : RuleBody} {notes : Option (List String)}

theorem plainWithin_entriesOver {event : String} {d : Nat} :
    ∀ m ∈ entriesOver vendor event b notes, PlainWithin (d + 2) m.2 := by
  have hmember (name : String) {v : Option Json.Value} (hv : ∀ x ∈ v, PlainWithin (d + 2) x) :
      ∀ m ∈ RuleBody.member name v, PlainWithin (d + 2) m.2 :=
    RuleBody.forall_mem_member.mpr hv
  have hstr (s : String) : PlainWithin (d + 2) (.str s) := .str _ s
  simp only [entriesOver, List.forall_mem_append]
  refine ⟨⟨⟨⟨⟨⟨⟨⟨?name, ?action⟩, ?event⟩, ?required⟩, ?conditions⟩, ?network⟩, ?stages⟩, ?metadata⟩,
    ?notes⟩
  case name => simpa using hstr _
  case action => exact hmember _ (plainWithin_map hstr _)
  case event => simpa using hstr _
  case required => simpa using fun f _ => hstr _
  case conditions =>
    exact hmember _
      (plainWithin_unless _ (plainWithin_list (fun c => plainWithin_texts (by simp)) _))
  case network => exact hmember _ (plainWithin_map (fun h => plainWithin_texts (by simp)) _)
  case stages =>
    exact hmember _
      (plainWithin_unless _ (plainWithin_list (fun c => plainWithin_texts (by simp)) _))
  case metadata => exact hmember _ (plainWithin_unless _ (plainWithin_table _))
  case notes => exact hmember _ (plainWithin_map (plainWithin_list fun s => .str _ s) _)

/-- The members that are read from the text of a document. -/
def written (vendor : Vendor) (b : RuleBody) (notes : Option (List String)) :
    List (String × Json.Value) :=
  (sortMembers (entries vendor b notes)).map fun m => (m.1, m.2.sorted)

/-- The text of a document is read as its members. -/
theorem members_render_eq (hv : Lawful vendor) (b : RuleBody) (notes : Option (List String)) :
    members (render vendor b notes).1 =
      .ok ((sortMembers (entriesOver vendor (eventMember vendor b) (eventValue vendor b).2 notes)).map
        fun m => (m.1, m.2.sorted)) := by
  have hdoc := build_eq_entriesOver hv.nodup_required (b := b) notes
  have hplain : PlainWithin Json.maxDepth (Json.Value.obj (build vendor b notes).1).sorted := by
    refine PlainWithin.sorted (.obj fun m hm => ?_)
    rw [hdoc] at hm
    exact plainWithin_entriesOver m (Json.mem_of_mem_sortMembers hm)
  have htext : (render vendor b notes).1 =
      (Json.Value.obj (build vendor b notes).1).sorted.prettyAt 0 := rfl
  rw [members, htext, Json.ofText?_prettyAt hplain]
  simp only [Json.Value.sorted_sorted]
  simp only [hdoc, Json.sorted_obj_of_ordered (Json.orderedByKey_sortMembers _)]

theorem members_render (hv : Lawful vendor) (hb : Documentable vendor b)
    (notes : Option (List String)) :
    members (render vendor b notes).1 = .ok (written vendor b notes) := by
  rw [members_render_eq hv, ← build_eq_entriesOver hv.nodup_required,
    build_eq hv.nodup_required hb.no_event_equality]
  rfl

/-! ### What is found under a key -/

theorem sorted_conditionJson (vendor : Vendor) (c : Condition) :
    (conditionJson vendor c).sorted = conditionJson vendor c := by
  rw [conditionJson, Condition.toJson, Json.sorted_obj_of_ordered
    (Json.orderedByKey_of_keys ["field", "operator", "value"] rfl (by decide))]
  rfl

theorem sorted_stage (s : Stage) : s.toJson.sorted = s.toJson := by
  rw [Stage.toJson, Json.sorted_obj_of_ordered
    (Json.orderedByKey_of_keys ["dialect", "text"] rfl (by decide))]
  rfl

theorem sorted_list {α : Type} {f : α → Json.Value} (h : ∀ x, (f x).sorted = f x) (xs : List α) :
    (Json.Value.arr (xs.map f)).sorted = .arr (xs.map f) := by
  rw [Json.Value.sorted, Json.sortedItems_eq_map, List.map_map]
  exact congrArg Json.Value.arr (List.map_congr_left fun x _ => h x)

theorem sorted_references {refs : List (String × String)} (h : OrderedByKey refs) :
    (Json.Value.obj (refs.map fun (k, v) => (k, .str v))).sorted =
      .obj (refs.map fun (k, v) => (k, .str v)) := by
  rw [Json.sorted_obj_of_ordered (Json.orderedByKey_map Json.Value.str h), List.map_map]
  rfl

/-- What a reader finds in the members of a document. -/
structure Holds (vendor : Vendor) (b : RuleBody) (doc : List (String × Json.Value)) : Prop where
  name : lookup "name" doc = some (.str b.title)
  action : lookup "action" doc = b.action.map .str
  event : lookup vendor.eventKey doc = some (.str (eventText vendor b))
  conditions : lookup "conditions" doc = if (listed vendor b).isEmpty then none
    else some (.arr ((listed vendor b).map (conditionJson vendor)))
  network : lookup "network" doc = b.network.map fun h => h.toJson.sorted
  stages : lookup "stages" doc = if b.stages.isEmpty then none
    else some (.arr (b.stages.map Stage.toJson))
  metadata : lookup "metadata" doc = if b.references.isEmpty then none
    else some (.obj (b.references.map fun (k, v) => (k, .str v)))
  top : doc.filterMap (topCondition vendor) = lifted vendor b

theorem scalar_sorted (v : Json.Value) : scalar v.sorted = scalar v := by
  cases v <;> rfl

theorem holds_written (hv : Lawful vendor) (hb : Documentable vendor b)
    (notes : Option (List String)) : Holds vendor b (written vendor b notes) := by
  have hlookup (key : String) : lookup key (written vendor b notes) =
      (lookup key (entries vendor b notes)).map (·.sorted) := by
    rw [written, Json.lookup_map, Json.lookup_sortMembers (hv.nodup_entries b notes)]
  have hevent {key : String} (hkey : key ∈ reservedKeys) : vendor.eventKey ≠ key := fun he =>
    hv.keys_free _ List.mem_cons_self (he ▸ hkey)
  have hrequired {key : String} (hkey : key ∈ reservedKeys ∨ key = vendor.eventKey) :
      lookup key (vendor.required.map fun f =>
        (vendor.key f, Json.Value.str (requiredText b.conditions f))) = none := by
    refine Json.lookup_eq_none fun m hm he => ?_
    obtain ⟨f, hf, rfl⟩ := List.mem_map.mp hm
    have he : vendor.key f = key := he
    have htop := hv.isTopKey_key hf
    rcases hkey with hkey | rfl <;> simp_all [isTopKey]
  have hreserved (key : String) (hkey : key ∈ reservedKeys) :=
    And.intro (hevent hkey) (hrequired (.inl hkey))
  constructor
  case name => simp [hlookup, entries, entriesOver, Json.lookup_cons, Json.Value.sorted]
  case action =>
    obtain ⟨he, hr⟩ := hreserved "action" (by decide)
    have hfound : lookup "action" (entries vendor b notes) = b.action.map .str := by
      simp [entries, entriesOver, annotationsKey, Json.lookup_append, Json.lookup_cons, lookup_member, he, hr]
    rw [hlookup, hfound, Option.map_map]
    cases b.action <;> rfl
  case event =>
    have hne (key : String) (hkey : key ∈ reservedKeys) : key ≠ vendor.eventKey :=
      (hevent hkey).symm
    simp [hlookup, entries, entriesOver, Json.lookup_append, Json.lookup_cons, lookup_member,
      hne "name" (by decide), hne "action" (by decide), Json.Value.sorted]
  case conditions =>
    obtain ⟨he, hr⟩ := hreserved "conditions" (by decide)
    have hfound : lookup "conditions" (entries vendor b notes) = if (listed vendor b).isEmpty
        then none else some (.arr ((listed vendor b).map (conditionJson vendor))) := by
      simp [entries, entriesOver, annotationsKey, Json.lookup_append, Json.lookup_cons, lookup_member, he, hr]
    rw [hlookup, hfound]
    split
    · rfl
    · exact congrArg some (sorted_list (sorted_conditionJson vendor) _)
  case network =>
    obtain ⟨he, hr⟩ := hreserved "network" (by decide)
    have hfound : lookup "network" (entries vendor b notes) =
        b.network.map NetworkHeader.toJson := by
      simp [entries, entriesOver, annotationsKey, Json.lookup_append, Json.lookup_cons, lookup_member, he, hr]
    rw [hlookup, hfound, Option.map_map]
    rfl
  case stages =>
    obtain ⟨he, hr⟩ := hreserved "stages" (by decide)
    have hfound : lookup "stages" (entries vendor b notes) = if b.stages.isEmpty
        then none else some (.arr (b.stages.map Stage.toJson)) := by
      simp [entries, entriesOver, annotationsKey, Json.lookup_append, Json.lookup_cons, lookup_member, he, hr]
    rw [hlookup, hfound]
    split
    · rfl
    · exact congrArg some (sorted_list sorted_stage _)
  case metadata =>
    obtain ⟨he, hr⟩ := hreserved "metadata" (by decide)
    have hfound : lookup "metadata" (entries vendor b notes) = if b.references.isEmpty
        then none else some (.obj (b.references.map fun (k, v) => (k, .str v))) := by
      simp [entries, entriesOver, annotationsKey, Json.lookup_append, Json.lookup_cons, lookup_member, he, hr]
    rw [hlookup, hfound]
    split
    · rfl
    · exact congrArg some (sorted_references hb.ordered)
  case top =>
    have htop : topCondition vendor ∘ (fun m => (m.1, m.2.sorted)) = topCondition vendor := by
      funext m
      simp only [Function.comp_apply, topCondition, scalar_sorted]
    rw [written, List.filterMap_map, htop]
    exact filterMap_topCondition hv hb notes

/-! ### Reading the parts -/

theorem rawCondition_decoder (vendor : Vendor) (c : Condition) :
    RawCondition.decoder .held (.ofValue (conditionJson vendor c)) =
      .ok ⟨vendor.key c.field, c.operator, .str c.value⟩ := by
  have hoperator : Operator.decoder .held (.ofValue (.str c.operator.name)) = .ok c.operator :=
    Operator.decoder_name _ _
  rw [RawCondition.decoder, conditionJson, Condition.toJson, Json.Decode.record_ofMembers .held
    ["field", "operator", "value"] rfl (by decide) ?checks]
  case checks =>
    simp [hoperator]
    exact ⟨rfl, rfl⟩
  obtain ⟨field, op, value⟩ := c
  cases op <;> rfl

theorem mapM_toCondition (hv : Lawful vendor) {cs : List Condition}
    (h : ∀ c ∈ cs, IsNamed vendor c.field) :
    (cs.map fun c => (⟨vendor.key c.field, c.operator, .str c.value⟩ : RawCondition)).mapM
      (RawCondition.toCondition vendor) = .ok cs := by
  induction cs with
  | nil => rfl
  | cons c cs ih =>
    have hc : RawCondition.toCondition vendor ⟨vendor.key c.field, c.operator, .str c.value⟩ =
        .ok c := by
      simp [RawCondition.toCondition, sourceScalar, hv.field_back _ (h c (by simp))]
    rw [List.map_cons, List.mapM_cons, hc, ih fun d hd => h d (by simp [hd])]
    rfl

section Reading

variable {doc : List (String × Json.Value)}

theorem readEvent_eq (hv : Lawful vendor) (hb : Documentable vendor b)
    (hdoc : Holds vendor b doc) : readEvent vendor doc = (b.event, []) := by
  have hscalar : (lookup vendor.eventKey doc).bind scalar = some (eventText vendor b) := by
    rw [hdoc.event]
    rfl
  rw [readEvent, hscalar]
  cases he : b.event with
  | none => simp [eventText, he]
  | some e =>
    obtain ⟨p, hp, hback, hwild⟩ := hv.category_back e (hb.event_known e he)
    simp [eventText, he, hp, hback, hwild]

theorem readConditions_eq (hv : Lawful vendor) (hb : Documentable vendor b)
    (hdoc : Holds vendor b doc) : readConditions vendor doc = .ok (listed vendor b) := by
  have hnamed : ∀ c ∈ listed vendor b, IsNamed vendor c.field := fun c hc =>
    hb.fields_named c ((RuleBody.withoutEqualities_sublist _ _).subset hc)
  rw [readConditions, hdoc.conditions]
  by_cases hempty : (listed vendor b).isEmpty = true
  · rw [if_pos hempty, List.isEmpty_iff.mp hempty]
  · rw [if_neg hempty]
    simp only [Json.Decode.list_map (rawCondition_decoder vendor)]
    exact mapM_toCondition hv hnamed

theorem readNetwork_eq (hdoc : Holds vendor b doc) : readNetwork doc = .ok b.network := by
  rw [readNetwork, hdoc.network]
  cases b.network with
  | none => rfl
  | some h =>
    have hread : Json.decodeValue NetworkHeader.decoder h.toJson.sorted = .ok h :=
      h.decoder_sorted
    simp only [Option.map_some, hread]

theorem readStages_eq (hdoc : Holds vendor b doc) : readStages doc = .ok b.stages := by
  rw [readStages, hdoc.stages]
  by_cases hempty : b.stages.isEmpty = true
  · rw [if_pos hempty, List.isEmpty_iff.mp hempty]
  · rw [if_neg hempty]
    simp only [Json.Decode.list_map Stage.decoder_toJson, List.map_id_fun', id_eq]

theorem foldl_addReference_str (refs : List (String × String)) (b : RuleBody) :
    (refs.map fun (k, v) => (k, Json.Value.str v)).foldl
      (fun (b : RuleBody) (k, v) => b.addReference k ((scalar v).getD v.compactString)) b =
    refs.foldl (fun b p => b.addReference p.1 p.2) b := by
  rw [List.foldl_map]
  rfl

theorem readReferences_eq (hb : Documentable vendor b) (hdoc : Holds vendor b doc) :
    readReferences doc = b.references := by
  rw [readReferences, hdoc.metadata]
  by_cases hempty : b.references.isEmpty = true
  · rw [if_pos hempty, List.isEmpty_iff.mp hempty]
  · rw [if_neg hempty]
    simp only [foldl_addReference_str, RuleBody.foldl_addReference (b := {})
      (by simpa using hb.ordered)]
    rfl

end Reading

/-- A document is read as the body that it was written for, with the conditions under the keys of
required fields first and the others behind them in their order. -/
theorem document_reads_back {vendor : Vendor} (hvendor : vendor ∈ vendors) {b : RuleBody}
    (hb : Documentable vendor b) (notes : Option (List String)) :
    parse vendor (render vendor b notes).1 =
        .ok { b with conditions := lifted vendor b ++ listed vendor b } ∧
      (lifted vendor b ++ listed vendor b).Perm b.conditions ∧
      (listed vendor b).Sublist b.conditions := by
  have hv := lawful_of_mem hvendor
  have hperm := lifted_listed_perm hv b
  refine ⟨?_, hperm, RuleBody.withoutEqualities_sublist _ _⟩
  have hdoc := holds_written hv hb notes
  have hdetects : ((lifted vendor b ++ listed vendor b).isEmpty && b.event.isNone) = false := by
    rw [hperm.isEmpty_eq]
    rcases hb.detects with he | hc
    · simp [Option.isNone_eq_false_iff.mpr he]
    · simp [hc]
  have htitle : text? (written vendor b notes) "name" = some b.title := by
    rw [text?, hdoc.name]
    rfl
  have haction : text? (written vendor b notes) "action" = b.action := by
    rw [text?, hdoc.action]
    cases b.action <;> rfl
  rw [parse, members_render hv hb notes]
  simp only [bind, Except.bind, readEvent_eq hv hb hdoc, readConditions_eq hv hb hdoc,
    readNetwork_eq hdoc, readStages_eq hdoc, hdoc.top, List.nil_append, hdetects, htitle, haction,
    readReferences_eq hb hdoc]
  rfl

theorem mixed_document_reads_back :
    let host : Condition := ⟨Field.hostname, .equals, "web\\01"⟩
    let command : Condition := ⟨Field.commandLine, .equals, "a \"*\" b"⟩
    let others : List Condition := [⟨Field.payload, .regex, "^\t"⟩,
      ⟨Field.eventType, .notEquals, "x"⟩, ⟨Field.hostname, .equals, "*"⟩,
      ⟨Field.hostname, .equals, "web02*"⟩]
    let b : RuleBody :=
      { title := "t\n"
        action := some "alert"
        event := some "process"
        network := some { protocol := "tcp" }
        conditions := host :: others ++ [command]
        stages := [⟨"splunk", "| stats count"⟩]
        references := [("cve", ""), ("sid", "1")] }
    .crowdstrike ∈ vendors ∧ Documentable .crowdstrike b ∧
      parse .crowdstrike (render .crowdstrike b (some ["note"])).1 =
        .ok { b with conditions := command :: host :: others } := by
  intro host command others b
  have hmem : Vendor.crowdstrike ∈ vendors := by simp [vendors]
  have hb : Documentable .crowdstrike b :=
    { event_known := by decide +kernel
      detects := .inl rfl
      no_event_equality := by decide +kernel
      fields_named := by decide +kernel
      required_plain := by decide +kernel
      ordered := by decide +kernel }
  have hlifted : lifted .crowdstrike b = [command, host] := by decide +kernel
  have hlisted : listed .crowdstrike b = others := by decide +kernel
  have hread := (document_reads_back hmem hb (some ["note"])).1
  rw [hlifted, hlisted] at hread
  exact ⟨hmem, hb, hread⟩

end RuleExchange.Document
