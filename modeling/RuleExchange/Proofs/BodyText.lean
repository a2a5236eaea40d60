import RuleExchange.Proofs.JsonDecode
import RuleExchange.Proofs.JsonText

/-! Stored bodies are read back. A body is stored as a compact object without its empty
parts, and each part that was left out is what the reader puts in its place. References
come back as the table that they are: ordered by key, each key once. -/

namespace RuleExchange.RuleBody

open Json (sortMembers lookup OrderedByKey PlainWithin)
open Json.Decode (foundIn field_foundIn)

/-! ### Places that may stay empty -/

section Places

variable {places : List (String × Option Json.Value)}

/-- The members of an object with a place for each name. -/
def filled (places : List (String × Option Json.Value)) : List (String × Json.Value) :=
  places.flatMap fun p => member p.1 p.2

theorem forall_mem_filled {P : String × Json.Value → Prop} :
    (∀ m ∈ filled places, P m) ↔ ∀ p ∈ places, ∀ x ∈ p.2, P (p.1, x) := by
  simp only [filled, List.forall_mem_flatMap, forall_mem_member]

theorem keys_filled_sublist (places : List (String × Option Json.Value)) :
    ((filled places).map Prod.fst).Sublist (places.map Prod.fst) := by
  induction places with
  | nil => exact .slnil
  | cons p rest ih =>
    rw [filled, List.flatMap_cons, List.map_append]
    exact (keys_member_sublist p.1 p.2).append ih

/-- What is found under a name is what its place holds. -/
theorem lookup_filled (hn : (places.map Prod.fst).Nodup) (key : String) :
    lookup key (filled places) = (lookup key places).join := by
  induction places with
  | nil => rfl
  | cons p rest ih =>
    obtain ⟨hp, hrest⟩ := List.nodup_cons.mp hn
    rw [filled, List.flatMap_cons, Json.lookup_append, lookup_member, Json.lookup_cons]
    by_cases he : p.1 = key
    · have hnone : lookup key (filled rest) = none := by
        refine Json.lookup_eq_none fun m hm hk => hp ?_
        rw [he, ← hk]
        exact (keys_filled_sublist rest).subset (List.mem_map_of_mem hm)
      rw [if_pos he, if_pos he]
      exact (congrArg p.2.or hnone).trans (Option.or_none ..)
    · rw [if_neg he, if_neg he, Option.none_or]
      exact ih hrest

end Places

/-! ### The places of a stored body -/

/-- What stands under each name of a stored body, if anything does. -/
def places (b : RuleBody) : List (String × Option Json.Value) := [
  ("title", some (.str b.title)),
  ("action", b.action.map .str),
  ("event", b.event.map .str),
  ("network", b.network.map NetworkHeader.toJson),
  ("conditions", some (.arr (b.conditions.map Condition.toJson))),
  ("stages", if b.stages.isEmpty then none else some (.arr (b.stages.map Stage.toJson))),
  ("references", if b.references.isEmpty then none
    else some (.obj (b.references.map fun (k, v) => (k, .str v))))]

theorem toJson_eq_filled (b : RuleBody) : b.toJson = .obj (filled b.places) := by
  simp only [toJson, filled, places, List.flatMap_cons, List.flatMap_nil]
  split <;> split <;> simp [member]

theorem keys_places (b : RuleBody) : b.places.map Prod.fst = shape.fields.map Prod.fst := rfl

theorem nodup_places (b : RuleBody) : (b.places.map Prod.fst).Nodup := by
  rw [keys_places]
  decide

theorem plainWithin_toJson {d : Nat} (b : RuleBody) : PlainWithin (d + 3) b.toJson := by
  have hstr (s : String) : PlainWithin (d + 2) (.str s) := .str _ s
  rw [toJson_eq_filled]
  refine .obj (forall_mem_filled.mpr ?_)
  simp only [places, List.forall_mem_cons, List.not_mem_nil, false_imp_iff, implies_true, and_true]
  refine ⟨?title, ?action, ?event, ?network, ?conditions, ?stages, ?references⟩
  case title =>
    rintro _ ⟨⟩
    exact hstr _
  case action => exact Json.plainWithin_map hstr _
  case event => exact Json.plainWithin_map hstr _
  case network => exact Json.plainWithin_map (fun h => Json.plainWithin_texts (by simp)) _
  case conditions =>
    rintro _ ⟨⟩
    exact Json.plainWithin_list (fun c => Json.plainWithin_texts (by simp)) _
  case stages =>
    exact Json.plainWithin_unless _
      (Json.plainWithin_list (fun s => Json.plainWithin_texts (by simp)) _)
  case references => exact Json.plainWithin_unless _ (Json.plainWithin_table _)

/-! ### Reading the places -/

section Reading

variable (o : Json.Origin)

theorem conditionList_toJson (cs : List Condition) :
    conditionList o (.ofValue (.arr (cs.map Condition.toJson))) = .ok cs := by
  have hitems := Json.Decode.eachItem_map (Condition.decoder_toJson "Condition" o) cs
  rw [List.map_id'] at hitems
  exact hitems

theorem stageList_toJson (stages : List Stage) :
    Json.Decode.list Stage.decoder o (.ofValue (.arr (stages.map Stage.toJson))) = .ok stages := by
  have hitems := Json.Decode.eachItem_map (o := o) Stage.decoder_toJson stages
  rw [List.map_id'] at hitems
  exact hitems

theorem table_references (refs : List (String × String)) :
    Json.Decode.table Json.Decode.string o
        (.ofValue (.obj (refs.map fun (k, v) => (k, .str v)))) = .ok (sortMembers refs) := by
  have hmembers := Json.Decode.eachMember_map (d := Json.Decode.string) (o := o)
    (f := Json.Value.str) (g := id) (fun _ => rfl) refs
  simp only [Json.Source.ofValue, Json.Decode.table, hmembers, id_eq, List.map_id']
  rfl

theorem option_network (h : NetworkHeader) :
    Json.Decode.option NetworkHeader.decoder o (.ofValue h.toJson) = .ok (some h) := by
  have hread := NetworkHeader.decoder_toJson o h
  simp only [NetworkHeader.toJson, Json.Source.ofValue, Json.Decode.option] at hread ⊢
  rw [hread]
  rfl

/-- Everything that a stored body holds fits where it stands. -/
theorem checkField_places (b : RuleBody) :
    ∀ p ∈ b.places, ∀ x ∈ p.2, checkField o p.1 (.ofValue x) = .ok () := by
  simp only [places, List.forall_mem_cons, List.not_mem_nil, false_imp_iff, implies_true, and_true]
  refine ⟨?title, ?action, ?event, ?network, ?conditions, ?stages, ?references⟩
  case title =>
    rintro _ ⟨⟩
    rfl
  case action =>
    cases b.action <;> simp
    rfl
  case event =>
    cases b.event <;> simp
    rfl
  case network =>
    cases b.network with
    | none => simp
    | some h => simp [checkField, option_network, Json.Decode.ignore, Except.map]
  case conditions => simp [checkField, conditionList_toJson, Json.Decode.ignore, Except.map]
  case stages =>
    split
    · simp
    · simp [checkField, stageList_toJson, Json.Decode.ignore, Except.map]
  case references =>
    split
    · simp
    · simp [checkField, table_references, Json.Decode.ignore, Except.map]

theorem record_toJson (b : RuleBody) :
    Json.Decode.record shape (checkField o) o (.ofValue b.toJson) =
      .ok (foundIn (filled b.places)) := by
  have hkeys := keys_places b ▸ keys_filled_sublist b.places
  rw [toJson_eq_filled]
  refine Json.Decode.record_of_fields o ((nodup_places b).sublist (keys_filled_sublist _)) ?_ ?_
    (forall_mem_filled.mpr (checkField_places o b))
  · intro m hm
    obtain ⟨f, hf, he⟩ := List.mem_map.mp (hkeys.subset (List.mem_map_of_mem hm))
    exact List.any_eq_true.mpr ⟨f, hf, by simpa using he⟩
  · -- the title is the only field that every body needs
    have htitle : ∀ f ∈ shape.fields, f.2 = .required → f.1 = "title" := by decide
    intro f hf hp
    rw [htitle f hf hp]
    exact List.mem_cons_self

theorem field_places {α : Type} {d : Json.Decoder α} {name : String} {default : α} (b : RuleBody)
    {v : Option Json.Value} (hv : lookup name b.places = some v) :
    Json.Decode.field d o (foundIn (filled b.places)) name default =
      v.elim (.ok default) fun x => d o (.ofValue x) := by
  rw [field_foundIn, lookup_filled (nodup_places b), hv]
  rfl

/-- A stored body is decoded as the body that it was written for, its references in order. -/
theorem decoder_toJson (b : RuleBody) :
    decoder o (.ofValue b.toJson) = .ok { b with references := sortMembers b.references } := by
  have htitle : Json.Decode.field Json.Decode.string o (foundIn (filled b.places)) "title" "" =
      .ok b.title := by
    refine (field_places o b rfl).trans ?_
    rfl
  have haction : Json.Decode.field (Json.Decode.option Json.Decode.string) o
      (foundIn (filled b.places)) "action" none = .ok b.action := by
    refine (field_places o b rfl).trans ?_
    cases b.action <;> rfl
  have hevent : Json.Decode.field (Json.Decode.option Json.Decode.string) o
      (foundIn (filled b.places)) "event" none = .ok b.event := by
    refine (field_places o b rfl).trans ?_
    cases b.event <;> rfl
  have hnetwork : Json.Decode.field (Json.Decode.option NetworkHeader.decoder) o
      (foundIn (filled b.places)) "network" none = .ok b.network := by
    refine (field_places o b rfl).trans ?_
    cases b.network with
    | none => rfl
    | some h => exact option_network o h
  have hconditions : Json.Decode.field conditionList o (foundIn (filled b.places)) "conditions" [] =
      .ok b.conditions := by
    refine (field_places o b rfl).trans ?_
    exact conditionList_toJson o b.conditions
  have hstages : Json.Decode.field (Json.Decode.list Stage.decoder) o (foundIn (filled b.places))
      "stages" [] = .ok b.stages := by
    refine (field_places o b rfl).trans ?_
    by_cases hempty : b.stages.isEmpty = true
    · rw [if_pos hempty, List.isEmpty_iff.mp hempty]
      rfl
    · rw [if_neg hempty]
      exact stageList_toJson o b.stages
  have hreferences : Json.Decode.field (Json.Decode.table Json.Decode.string) o
      (foundIn (filled b.places)) "references" [] = .ok (sortMembers b.references) := by
    refine (field_places o b rfl).trans ?_
    by_cases hempty : b.references.isEmpty = true
    · rw [if_pos hempty, List.isEmpty_iff.mp hempty]
      rfl
    · rw [if_neg hempty]
      exact table_references o b.references
  simp only [decoder, record_toJson, bind, Except.bind, htitle, haction, hevent, hnetwork,
    hconditions, hstages, hreferences]
  rfl

end Reading

/-! ### The stored text -/

theorem ofText_toText (b : RuleBody) :
    ofText b.toText = .ok { b with references := sortMembers b.references } := by
  have htext : b.toText.toList = b.toJson.compact := String.toList_ofList
  have hspells := Json.spells_compact (plainWithin_toJson (d := 0) b)
  rw [ofText, Json.decodeText, htext, Json.ofText_of_spells hspells]
  simp only [decoder_toJson, bind, Except.bind, if_true]

/-- A stored body is read as the very body that it was written for, whatever its texts are and
whichever of its parts are empty. -/
theorem stored_body_reads_back {b : RuleBody} (h : OrderedByKey b.references) :
    ofText b.toText = .ok b := by
  rw [ofText_toText, Json.sortMembers_of_ordered h]

theorem awkward_body_reads_back :
    let b : RuleBody :=
      { title := "a \"quoted\" \\ title\n\x00\x1f\u2028😀"
        event := some ""
        network := some { protocol := "tc\tp" }
        conditions := [⟨"payload", .startsWith, "\x7b\"title\":"⟩, ⟨"", .regex, "\x08"⟩]
        references := [("", ","), ("sid", "1\r"), ("é", "")] }
    OrderedByKey b.references ∧ ofText b.toText = .ok b := by
  intro b
  have hordered : OrderedByKey b.references := by decide
  exact ⟨hordered, stored_body_reads_back hordered⟩

end RuleExchange.RuleBody
