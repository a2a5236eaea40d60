import Mathlib.Data.List.Basic
import RuleExchange.Document.Reader
import RuleExchange.Document.Writer
import RuleExchange.Proofs.JsonText
import RuleExchange.Proofs.Members

/-! The members of a written document. They are put in one by one; since no key comes
twice, what is found under a key is what was put there, and the keys that are neither
reserved nor the event key are those of the required fields. -/

namespace RuleExchange.RuleBody

/-! ### Taking out equalities -/

theorem takeEquality_eq (b : RuleBody) (field : String) :
    b.takeEquality field = ((b.conditions.find? (isEqualityOn field)).map (·.value),
      { b with conditions := b.conditions.eraseP (isEqualityOn field) }) := by
  rw [takeEquality, List.eraseP_eq_eraseIdx]
  cases hi : b.conditions.findIdx? (isEqualityOn field) with
  | none =>
    have hnone : b.conditions.find? (isEqualityOn field) = none := by
      simpa [List.findIdx?_eq_none_iff] using hi
    rw [hnone]
    rfl
  | some i =>
    obtain ⟨hlt, hp, hbefore⟩ := List.findIdx?_eq_some_iff_getElem.mp hi
    have hfind : b.conditions.find? (isEqualityOn field) = b.conditions[i]? := by
      rw [List.getElem?_eq_getElem hlt, List.find?_eq_some_iff_getElem]
      exact ⟨hp, i, hlt, rfl, by simpa using hbefore⟩
    rw [hfind]

theorem field_of_isEqualityOn {field : String} {c : Condition} (h : isEqualityOn field c = true) :
    c.field = field ∧ c.operator = .equals ∧ c.isMatchAll = false := by
  simpa [isEqualityOn, and_assoc] using h

/-- The conditions without the first equality on each of some fields. -/
def withoutEqualities (fields : List String) (cs : List Condition) : List Condition :=
  fields.foldl (fun cs f => cs.eraseP (isEqualityOn f)) cs

theorem find?_eraseP_of_ne {f g : String} (h : f ≠ g) (cs : List Condition) :
    (cs.eraseP (isEqualityOn g)).find? (isEqualityOn f) = cs.find? (isEqualityOn f) := by
  induction cs with
  | nil => rfl
  | cons c cs ih =>
    by_cases hg : isEqualityOn g c = true
    · have hf : isEqualityOn f c = false := Bool.eq_false_iff.mpr fun hf =>
        h ((field_of_isEqualityOn hf).1.symm.trans (field_of_isEqualityOn hg).1)
      simp [hg, hf]
    · simp [hg, List.find?_cons, ih]

theorem withoutEqualities_sublist (fields : List String) (cs : List Condition) :
    (withoutEqualities fields cs).Sublist cs := by
  induction fields generalizing cs with
  | nil => exact .refl cs
  | cons f fs ih => exact (ih _).trans List.eraseP_sublist

theorem cons_eraseP_perm {p : Condition → Bool} {c : Condition} {cs : List Condition}
    (h : cs.find? p = some c) : (c :: cs.eraseP p).Perm cs := by
  obtain ⟨hp, before, after, rfl, hbefore⟩ := List.find?_eq_some_iff_append.mp h
  rw [List.eraseP_append_right _ (by simpa using hbefore), List.eraseP_cons_of_pos hp]
  exact List.perm_middle.symm

/-- The equalities that are taken out and the conditions that are left are all conditions. -/
theorem equalities_perm {fields : List String} (hn : fields.Nodup) (cs : List Condition) :
    (fields.filterMap (fun f => cs.find? (isEqualityOn f)) ++ withoutEqualities fields cs).Perm
      cs := by
  induction fields generalizing cs with
  | nil => exact .refl cs
  | cons f fs ih =>
    obtain ⟨hf, hfs⟩ := List.nodup_cons.mp hn
    have hrest : fs.filterMap (fun g => (cs.eraseP (isEqualityOn f)).find? (isEqualityOn g)) =
        fs.filterMap (fun g => cs.find? (isEqualityOn g)) :=
      List.filterMap_congr fun g hg =>
        find?_eraseP_of_ne (f := g) (g := f) (fun he => hf (he ▸ hg)) cs
    have hperm := ih hfs (cs.eraseP (isEqualityOn f))
    rw [hrest] at hperm
    rw [List.filterMap_cons]
    cases hfind : cs.find? (isEqualityOn f) with
    | none =>
      have hsame : cs.eraseP (isEqualityOn f) = cs :=
        List.eraseP_of_forall_not (List.find?_eq_none.mp hfind)
      exact hperm.trans (.of_eq hsame)
    | some c => exact (hperm.cons c).trans (cons_eraseP_perm hfind)

end RuleExchange.RuleBody

namespace RuleExchange.Document

open Json (insertAll sortMembers lookup OrderedByKey PlainWithin)

/-! ### Drafts -/

theorem put_doc (d : Draft) (key : String) (v : Json.Value) :
    (d.put key v).doc = insertAll d.doc [(key, v)] := rfl

theorem putIf_doc (d : Draft) (present : Bool) (key : String) (v : Json.Value) :
    (d.putIf present key v).doc =
      insertAll d.doc (RuleBody.member key (if present then some v else none)) := by
  cases present <;> rfl

theorem putIf_rest (d : Draft) (present : Bool) (key : String) (v : Json.Value) :
    (d.putIf present key v).rest = d.rest := by
  cases present <;> rfl

theorem require_doc (d : Draft) (key : String) (value : Option String) :
    (d.require key value).doc =
      insertAll d.doc [(key, .str (value.getD (String.singleton wildcard)))] := by
  cases value <;> rfl

theorem require_rest (d : Draft) (key : String) (value : Option String) :
    (d.require key value).rest = d.rest := by
  cases value <;> rfl

/-- The text under the key of a required field. -/
def requiredText (cs : List Condition) (field : String) : String :=
  ((cs.find? (RuleBody.isEqualityOn field)).map (·.value)).getD (String.singleton wildcard)

theorem foldl_requireField (vendor : Vendor) {fields : List String} (hn : fields.Nodup)
    (d : Draft) :
    (fields.foldl (Draft.requireField vendor) d).doc = insertAll d.doc
        (fields.map fun f => (vendor.key f, .str (requiredText d.rest.conditions f))) ∧
      (fields.foldl (Draft.requireField vendor) d).rest =
        { d.rest with conditions := RuleBody.withoutEqualities fields d.rest.conditions } := by
  induction fields generalizing d with
  | nil => exact ⟨rfl, rfl⟩
  | cons f fs ih =>
    obtain ⟨hf, hfs⟩ := List.nodup_cons.mp hn
    have hrest : (d.requireField vendor f).rest =
        { d.rest with conditions := d.rest.conditions.eraseP (RuleBody.isEqualityOn f) } := by
      rw [Draft.requireField, RuleBody.takeEquality_eq]
      exact require_rest _ _ _
    have hdoc : (d.requireField vendor f).doc =
        insertAll d.doc [(vendor.key f, .str (requiredText d.rest.conditions f))] := by
      rw [Draft.requireField, RuleBody.takeEquality_eq]
      exact require_doc _ _ _
    have htexts : ∀ g ∈ fs, requiredText (d.rest.conditions.eraseP (RuleBody.isEqualityOn f)) g =
        requiredText d.rest.conditions g := by
      intro g hg
      have hne : g ≠ f := fun he => hf (he ▸ hg)
      rw [requiredText, RuleBody.find?_eraseP_of_ne hne]
      rfl
    obtain ⟨ihdoc, ihrest⟩ := ih hfs (d.requireField vendor f)
    rw [List.foldl_cons]
    constructor
    · rw [ihdoc, hdoc, hrest, List.map_congr_left fun g hg => by rw [htexts g hg]]
      rfl
    · rw [ihrest, hrest]
      rfl

/-! ### Members -/

/-- The conditions that are listed: those that are not under a required key. -/
def listed (vendor : Vendor) (b : RuleBody) : List Condition :=
  RuleBody.withoutEqualities vendor.required b.conditions

/-- The text under the event key. -/
def eventText (vendor : Vendor) (b : RuleBody) : String :=
  (b.event.map fun c => (vendor.categories.toPlatform c).getD c).getD (String.singleton wildcard)

/-- The members of a document over the text of its event, in the order in which they are put in. -/
def entriesOver (vendor : Vendor) (event : String) (b : RuleBody) (notes : Option (List String)) :
    List (String × Json.Value) :=
  [("name", .str b.title)] ++ RuleBody.member "action" (b.action.map .str) ++
    [(vendor.eventKey, .str event)] ++
    vendor.required.map (fun f => (vendor.key f, .str (requiredText b.conditions f))) ++
    RuleBody.member "conditions" (if (listed vendor b).isEmpty then none
      else some (.arr ((listed vendor b).map (conditionJson vendor)))) ++
    RuleBody.member "network" (b.network.map NetworkHeader.toJson) ++
    RuleBody.member "stages" (if b.stages.isEmpty then none
      else some (.arr (b.stages.map Stage.toJson))) ++
    RuleBody.member "metadata" (if b.references.isEmpty then none
      else some (.obj (b.references.map fun (k, v) => (k, .str v)))) ++
    RuleBody.member annotationsKey (notes.map .strings)

/-- The members of a document whose event comes from the category alone. -/
def entries (vendor : Vendor) (b : RuleBody) (notes : Option (List String)) :
    List (String × Json.Value) :=
  entriesOver vendor (eventText vendor b) b notes

section Build

variable {vendor : Vendor} (hn : vendor.required.Nodup) {b : RuleBody}

theorem eventValue_rest (vendor : Vendor) (b : RuleBody) : (eventValue vendor b).2 =
    { b with conditions := b.conditions.eraseP (RuleBody.isEqualityOn Field.eventType) } := by
  simp only [eventValue, RuleBody.takeEquality_eq]

/-- The text under the event key: an equality on the event type comes before the category. -/
def eventMember (vendor : Vendor) (b : RuleBody) : String :=
  (eventValue vendor b).1.getD (String.singleton wildcard)

include hn

theorem head_eq : (head vendor b).doc = sortMembers ([("name", .str b.title)] ++
      RuleBody.member "action" (b.action.map .str) ++
      [(vendor.eventKey, .str (eventMember vendor b))] ++
      vendor.required.map (fun f =>
        (vendor.key f, .str (requiredText (eventValue vendor b).2.conditions f)))) ∧
    (head vendor b).rest =
      { b with conditions := listed vendor (eventValue vendor b).2 } := by
  have haction : (if b.action.isSome = true then some (Json.Value.str (b.action.getD ""))
      else none) = b.action.map .str := by
    cases b.action <;> rfl
  obtain ⟨hdoc, hrest⟩ := foldl_requireField vendor hn
    ((({ rest := (eventValue vendor b).2 : Draft }.put "name" (.str b.title)).putIf
      b.action.isSome "action" (.str (b.action.getD ""))).require vendor.eventKey
        (eventValue vendor b).1)
  rw [require_rest, putIf_rest] at hdoc hrest
  rw [head]
  refine ⟨hdoc.trans ?_, hrest.trans ?_⟩
  · rw [require_doc, putIf_doc, put_doc, haction, Json.sortMembers_eq_insertAll,
      Json.insertAll_append, Json.insertAll_append, Json.insertAll_append]
    rfl
  · rw [eventValue_rest]
    rfl

theorem build_eq_entriesOver (notes : Option (List String)) : (build vendor b notes).1 =
    sortMembers (entriesOver vendor (eventMember vendor b) (eventValue vendor b).2 notes) := by
  obtain ⟨hdoc, hrest⟩ := head_eq hn (b := b)
  have hnot (p : Bool) (v : Json.Value) :
      (if (!p) = true then some v else none) = if p = true then none else some v := by
    cases p <;> rfl
  rw [eventValue_rest] at hdoc hrest ⊢
  simp only [build, hrest, entriesOver, Json.sortMembers_eq_insertAll, Json.insertAll_append]
  rw [Json.sortMembers_eq_insertAll] at hdoc
  simp only [Json.insertAll_append] at hdoc
  cases b.network <;> cases notes <;>
    simp only [put_doc, putIf_doc, hdoc, hnot, Option.map_none, Option.map_some, RuleBody.member,
      Json.insertAll_nil]

theorem build_eq (hevent : ∀ c ∈ b.conditions, RuleBody.isEqualityOn Field.eventType c = false)
    (notes : Option (List String)) :
    (build vendor b notes).1 = sortMembers (entries vendor b notes) := by
  have hnone : b.conditions.find? (RuleBody.isEqualityOn Field.eventType) = none := by
    simpa using hevent
  have hsame : b.conditions.eraseP (RuleBody.isEqualityOn Field.eventType) = b.conditions :=
    List.eraseP_of_forall_not (by simpa using hevent)
  have hvalue : eventValue vendor b =
      (b.event.map fun c => (vendor.categories.toPlatform c).getD c, b) := by
    simp only [eventValue, RuleBody.takeEquality_eq, hnone, hsame]
    rfl
  rw [build_eq_entriesOver hn, eventMember, hvalue]
  rfl

end Build

/-! ### Lawful vendors -/

/-- The categories of events. -/
def categories : List String := ["network", "process", "file", "dns", "registry"]

/-- The keys of a document in the order in which they are put in. -/
def allKeys (vendor : Vendor) : List String :=
  ["name", "action"] ++ vendor.requiredKeys ++
    ["conditions", "network", "stages", "metadata", annotationsKey]

/-- A neutral field, or any field where every name stands for itself. -/
def IsNamed (vendor : Vendor) (field : String) : Prop :=
  vendor.fields.entries = [] ∨ field ∈ Field.all

instance (vendor : Vendor) (field : String) : Decidable (IsNamed vendor field) :=
  inferInstanceAs (Decidable (_ ∨ _))

/-- Keys, fields and categories of a vendor do not get into each other's way. -/
structure Lawful (vendor : Vendor) : Prop where
  keys_nodup : (allKeys vendor).Nodup
  keys_free : ∀ key ∈ vendor.requiredKeys, key ∉ reservedKeys
  required_named : ∀ f ∈ vendor.required, IsNamed vendor f
  field_back : ∀ f, IsNamed vendor f → vendor.fields.canonicalOrKeep (vendor.key f) = f
  category_back : ∀ c ∈ categories, ∃ p, vendor.categories.toPlatform c = some p ∧
    vendor.categories.toCanonical p = some c ∧ p ≠ String.singleton wildcard

def vendors : List Vendor := [.generic, .crowdstrike, .sentinelone, .defender]

theorem lawful_of_mem {vendor : Vendor} (h : vendor ∈ vendors) : Lawful vendor := by
  have hnodup : ∀ vendor ∈ vendors, (allKeys vendor).Nodup := by decide +kernel
  have hfree : ∀ vendor ∈ vendors, ∀ key ∈ vendor.requiredKeys, key ∉ reservedKeys := by
    decide +kernel
  have hnamed : ∀ vendor ∈ vendors, ∀ f ∈ vendor.required, f ∈ Field.all := by decide +kernel
  have hback : ∀ vendor ∈ vendors, ∀ f ∈ Field.all,
      vendor.fields.canonicalOrKeep (vendor.key f) = f := by decide +kernel
  have hcategory : ∀ vendor ∈ vendors, ∀ c ∈ categories,
      ((vendor.categories.toPlatform c).bind vendor.categories.toCanonical = some c ∧
        vendor.categories.toPlatform c ≠ some (String.singleton wildcard)) := by decide +kernel
  refine ⟨hnodup vendor h, hfree vendor h, fun f hf => .inr (hnamed vendor h f hf), ?back, ?category⟩
  case back =>
    rintro f (hentries | hf)
    · simp [Vendor.key, FieldMap.platformOrKeep, FieldMap.canonicalOrKeep, FieldMap.toPlatform,
        FieldMap.toCanonical, hentries]
    · exact hback vendor h f hf
  case category =>
    intro c hc
    obtain ⟨hcanonical, hwild⟩ := hcategory vendor h c hc
    obtain ⟨p, hp, hpc⟩ := Option.bind_eq_some_iff.mp hcanonical
    exact ⟨p, hp, hpc, fun he => hwild (he ▸ hp)⟩

/-! ### Keys -/

theorem keys_entriesOver_sublist (vendor : Vendor) (event : String) (b : RuleBody)
    (notes : Option (List String)) :
    ((entriesOver vendor event b notes).map Prod.fst).Sublist (allKeys vendor) := by
  have hkeys : allKeys vendor = ["name"] ++ ["action"] ++ [vendor.eventKey] ++
      vendor.required.map vendor.key ++ ["conditions"] ++ ["network"] ++ ["stages"] ++
      ["metadata"] ++ [annotationsKey] := by
    simp [allKeys, Vendor.requiredKeys]
  have hrequired : (vendor.required.map fun f => (vendor.key f, Json.Value.str
      (requiredText b.conditions f))).map Prod.fst = vendor.required.map vendor.key := by simp
  simp only [hkeys, entriesOver, List.map_append, hrequired]
  repeat' apply List.Sublist.append
  all_goals first | exact RuleBody.keys_member_sublist _ _ | exact .refl _

/-- Whether a plain value under the key is read as a condition. -/
def isTopKey (vendor : Vendor) (key : String) : Bool :=
  !(key == vendor.eventKey || reservedKeys.contains key)

section Lawful

variable {vendor : Vendor} (hv : Lawful vendor) (b : RuleBody) (notes : Option (List String))

include hv

theorem Lawful.nodup_entriesOver (event : String) :
    ((entriesOver vendor event b notes).map Prod.fst).Nodup :=
  (keys_entriesOver_sublist vendor event b notes).nodup hv.keys_nodup

theorem Lawful.nodup_entries : ((entries vendor b notes).map Prod.fst).Nodup :=
  hv.nodup_entriesOver b notes (eventText vendor b)

theorem Lawful.nodup_requiredKeys : vendor.requiredKeys.Nodup := by
  refine List.Sublist.nodup ?_ hv.keys_nodup
  exact (List.sublist_append_right _ _).trans (List.sublist_append_left _ _)

theorem Lawful.nodup_keys : (vendor.required.map vendor.key).Nodup :=
  (List.nodup_cons.mp hv.nodup_requiredKeys).2

theorem Lawful.nodup_required : vendor.required.Nodup :=
  List.Pairwise.of_map vendor.key (fun _ _ hne he => hne (he ▸ rfl)) hv.nodup_keys

theorem Lawful.isTopKey_key {f : String} (hf : f ∈ vendor.required) :
    isTopKey vendor (vendor.key f) = true := by
  have hkey := List.mem_map_of_mem (f := vendor.key) hf
  have hfree := hv.keys_free _ (List.mem_cons_of_mem _ hkey)
  have hevent : vendor.key f ≠ vendor.eventKey := fun he =>
    (List.nodup_cons.mp hv.nodup_requiredKeys).1 (he ▸ hkey)
  simp [isTopKey, hfree, hevent]

/-- Only the keys of required fields may hold conditions. -/
theorem Lawful.filter_entries :
    (entries vendor b notes).filter (fun m => isTopKey vendor m.1) =
      vendor.required.map fun f => (vendor.key f, .str (requiredText b.conditions f)) := by
  have hreserved {name : String} (hname : name ∈ reservedKeys) (v : Option Json.Value) :
      (RuleBody.member name v).filter (fun m => isTopKey vendor m.1) = [] := by
    cases v <;> simp [RuleBody.member, isTopKey, hname]
  have hname : "name" ∈ reservedKeys := by decide
  have hkept : (vendor.required.map fun f => (vendor.key f, Json.Value.str
      (requiredText b.conditions f))).filter (fun m => isTopKey vendor m.1) =
      vendor.required.map fun f => (vendor.key f, .str (requiredText b.conditions f)) :=
    List.filter_eq_self.mpr (by simpa using fun f hf => hv.isTopKey_key hf)
  have hevent : isTopKey vendor vendor.eventKey = false := by simp [isTopKey]
  have hnone : isTopKey vendor "name" = false := by simp [isTopKey, hname]
  simp only [entries, entriesOver, List.filter_append, hkept]
  rw [hreserved (by decide), hreserved (by decide), hreserved (by decide), hreserved (by decide),
    hreserved (by decide), hreserved (by decide)]
  simp [hevent, hnone]

end Lawful

/-! ### Conditions at the top -/

/-- The conditions under the required keys, in the order of the keys. -/
def lifted (vendor : Vendor) (b : RuleBody) : List Condition :=
  (sortMembers (vendor.required.map fun f => (vendor.key f, f))).filterMap fun m =>
    b.conditions.find? (RuleBody.isEqualityOn m.2)

/-- A body that a document of the vendor says in full: the values of required fields are no
patterns, and the event type is left to the category. -/
structure Documentable (vendor : Vendor) (b : RuleBody) : Prop where
  event_known : ∀ e ∈ b.event, e ∈ categories
  detects : b.event.isSome ∨ b.conditions ≠ []
  no_event_equality : ∀ c ∈ b.conditions, RuleBody.isEqualityOn Field.eventType c = false
  fields_named : ∀ c ∈ b.conditions, IsNamed vendor c.field
  required_plain : ∀ f ∈ vendor.required, ∀ c ∈ b.conditions.find? (RuleBody.isEqualityOn f),
    Condition.ofPattern c.field c.value wildcard = c
  ordered : OrderedByKey b.references

section Top

variable {vendor : Vendor} (hv : Lawful vendor) {b : RuleBody} (hb : Documentable vendor b)

theorem topCondition_of_not_isTopKey {m : String × Json.Value}
    (h : isTopKey vendor m.1 = false) : topCondition vendor m = none := by
  have hkey : m.1 = vendor.eventKey ∨ reservedKeys.contains m.1 = true :=
    or_iff_not_imp_left.mpr (by simpa [isTopKey] using h)
  exact if_pos hkey

theorem topCondition_str {key text : String} (h : isTopKey vendor key = true) :
    topCondition vendor (key, .str text) =
      if (Condition.ofPattern (vendor.fields.canonicalOrKeep key) text wildcard).isMatchAll then none
      else some (Condition.ofPattern (vendor.fields.canonicalOrKeep key) text wildcard) := by
  have hkey : ¬ (key = vendor.eventKey ∨ reservedKeys.contains key = true) := by
    simpa [isTopKey, not_or] using h
  exact if_neg hkey

include hv hb

/-- A required key gives back the equality that was put there. -/
theorem topCondition_required {f : String} (hf : f ∈ vendor.required) :
    topCondition vendor (vendor.key f, .str (requiredText b.conditions f)) =
      b.conditions.find? (RuleBody.isEqualityOn f) := by
  rw [topCondition_str (hv.isTopKey_key hf), hv.field_back f (hv.required_named f hf), requiredText]
  cases hfind : b.conditions.find? (RuleBody.isEqualityOn f) with
  | none =>
    have hall : (Condition.ofPattern f (String.singleton wildcard) wildcard).isMatchAll = true := by
      simp [Condition.ofPattern, Condition.normalize, Condition.isMatchAll]
    simp [hall]
  | some c =>
    obtain ⟨hfield, -, hmatch⟩ := RuleBody.field_of_isEqualityOn (List.find?_some hfind)
    have hsame := hb.required_plain f hf c hfind
    rw [hfield] at hsame
    simp [hsame, hmatch]

theorem filterMap_topCondition (notes : Option (List String)) :
    (sortMembers (entries vendor b notes)).filterMap (topCondition vendor) = lifted vendor b := by
  have hfilter : topCondition vendor =
      fun m => if isTopKey vendor m.1 then topCondition vendor m else none := by
    funext m
    split
    · rfl
    · rename_i h
      exact topCondition_of_not_isTopKey (by simpa using h)
  have hsort : (sortMembers (entries vendor b notes)).filter (fun m => isTopKey vendor m.1) =
      (sortMembers (vendor.required.map fun f => (vendor.key f, f))).map fun m =>
        (m.1, Json.Value.str (requiredText b.conditions m.2)) := by
    have hmap := Json.sortMembers_map (fun f => Json.Value.str (requiredText b.conditions f))
      (vendor.required.map fun f => (vendor.key f, f))
    rw [List.map_map] at hmap
    rw [Json.sortMembers_eq_insertAll, Json.filter_insertAll _ List.Pairwise.nil,
      hv.filter_entries, ← hmap]
    rfl
  rw [hfilter, ← List.filterMap_filter, hsort, List.filterMap_map, lifted]
  refine List.filterMap_congr fun m hm => ?_
  obtain ⟨f, hf, rfl⟩ := List.mem_map.mp (Json.mem_of_mem_sortMembers hm)
  exact topCondition_required hv hb hf

end Top

/-- Conditions at the top and listed ones are all conditions of the body. -/
theorem lifted_listed_perm {vendor : Vendor} (hv : Lawful vendor) (b : RuleBody) :
    (lifted vendor b ++ listed vendor b).Perm b.conditions := by
  have hkeys : ((vendor.required.map fun f => (vendor.key f, f)).map Prod.fst).Nodup := by
    simpa [Function.comp_def] using hv.nodup_keys
  have hsort := (Json.sortMembers_perm hkeys).filterMap
    fun m => b.conditions.find? (RuleBody.isEqualityOn m.2)
  rw [List.filterMap_map] at hsort
  exact (hsort.append_right _).trans (RuleBody.equalities_perm hv.nodup_required b.conditions)

end RuleExchange.Document
