import RuleExchange.Proofs.Members

/-! Typed data is decoded from the values it is written as. The fields of a record may
stand in any order, each once, and lists are decoded item by item. -/

namespace RuleExchange.Json.Decode

/-! ### Lists and records -/

theorem eachItem_map {α β : Type} {d : Decoder β} {o : Origin} {f : α → Value} {g : α → β}
    (h : ∀ x, d o (.ofValue (f x)) = .ok (g x)) (xs : List α) :
    eachItem d o (ofItems (xs.map f)) = .ok (xs.map g) := by
  induction xs with
  | nil => rfl
  | cons x xs ih =>
    rw [List.map_cons, ofItems, eachItem, h x, ih]
    rfl

theorem list_map {α β : Type} {d : Decoder β} {f : α → Value} {g : α → β}
    (h : ∀ x, d .held (.ofValue (f x)) = .ok (g x)) (xs : List α) :
    decodeValue (list d) (.arr (xs.map f)) = .ok (xs.map g) :=
  eachItem_map h xs

/-- The fields that are found in the members of an object. -/
def foundIn (ms : List (String × Value)) : Found := ms.map fun m => (m.1, .ofValue m.2)

variable {shape : Shape} {check : String → Source → Except Misfit Unit}
  {ms : List (String × Value)}

theorem fromMembers_ofMembers (hfield : ∀ m ∈ ms, shape.isField m.1 = true)
    (hcheck : ∀ m ∈ ms, check m.1 (.ofValue m.2) = .ok ()) (found : Found)
    (hn : ((found.map Prod.fst) ++ ms.map Prod.fst).Nodup) :
    fromMembers shape check found (ofMembers ms) = .ok (found ++ foundIn ms) := by
  induction ms generalizing found with
  | nil => simp [ofMembers, fromMembers, foundIn]
  | cons m rest ih =>
    obtain ⟨k, v⟩ := m
    have hnew : found.any (·.1 == k) = false := by
      rw [List.any_eq_false]
      intro x hx he
      have hk : x.1 = k := by simpa using he
      exact (List.nodup_append.mp hn).2.2 x.1 (List.mem_map_of_mem hx) k (by simp) hk
    have hnext := ih (fun x hx => hfield x (by simp [hx])) (fun x hx => hcheck x (by simp [hx]))
      (found ++ [(k, .ofValue v)]) (by simpa using hn)
    rw [ofMembers, fromMembers, hcheck (k, v) (by simp)]
    simp only [hfield (k, v) (by simp), hnew, if_true, Bool.false_eq_true, if_false]
    refine hnext.trans ?_
    simp [foundIn]

theorem missing_foundIn (hneeded : ∀ f ∈ shape.fields, f.2 = .required → f.1 ∈ ms.map Prod.fst) :
    missing shape (foundIn ms) = none := by
  rw [missing, Option.map_eq_none_iff, List.find?_eq_none]
  rintro ⟨n, p⟩ hf hmissing
  obtain ⟨hp, hnone⟩ : p = .required ∧ (foundIn ms).any (·.1 == n) = false := by
    simpa using hmissing
  obtain ⟨m, hm, he⟩ := List.mem_map.mp (hneeded (n, p) hf hp)
  have hfound : (foundIn ms).any (·.1 == n) = true :=
    List.any_eq_true.mpr ⟨(m.1, .ofValue m.2), List.mem_map_of_mem hm, by simpa using he⟩
  simp [hfound] at hnone

/-- A record is decoded from an object with some of its fields, each once, when no field that it
needs is left out. -/
theorem record_of_fields (o : Origin) (hn : (ms.map Prod.fst).Nodup)
    (hfield : ∀ m ∈ ms, shape.isField m.1 = true)
    (hneeded : ∀ f ∈ shape.fields, f.2 = .required → f.1 ∈ ms.map Prod.fst)
    (hcheck : ∀ m ∈ ms, check m.1 (.ofValue m.2) = .ok ()) :
    record shape check o (.ofValue (.obj ms)) = .ok (foundIn ms) := by
  have hmembers := fromMembers_ofMembers hfield hcheck [] (by simpa using hn)
  rw [List.nil_append] at hmembers
  simp only [Source.ofValue, record, hmembers, bind, Except.bind, missing_foundIn hneeded]

/-- The names are those of the fields, each once. -/
def Covers (shape : Shape) (names : List String) : Prop :=
  names.Nodup ∧ (∀ n ∈ names, shape.isField n = true) ∧ ∀ f ∈ shape.fields, f.1 ∈ names

instance (shape : Shape) (names : List String) : Decidable (Covers shape names) :=
  inferInstanceAs (Decidable (_ ∧ _ ∧ _))

/-- A record is decoded from an object that has each of its fields once. -/
theorem record_ofMembers (o : Origin) (names : List String) (hnames : ms.map Prod.fst = names)
    (hcovers : Covers shape names) (hcheck : ∀ m ∈ ms, check m.1 (.ofValue m.2) = .ok ()) :
    record shape check o (.ofValue (.obj ms)) = .ok (foundIn ms) := by
  subst hnames
  obtain ⟨hn, hfield, hall⟩ := hcovers
  exact record_of_fields o hn (fun m hm => hfield m.1 (List.mem_map_of_mem hm))
    (fun f hf _ => hall f hf) hcheck

/-- A field is read from the member of its name. -/
theorem field_foundIn {α : Type} (d : Decoder α) (o : Origin) (name : String) (default : α) :
    field d o (foundIn ms) name default =
      (lookup name ms).elim (.ok default) fun v => d o (.ofValue v) := by
  have hlookup : lookup name (foundIn ms) = (lookup name ms).map .ofValue :=
    lookup_map Source.ofValue name ms
  rw [field, hlookup]
  cases lookup name ms <;> rfl

theorem eachMember_map {α β : Type} {d : Decoder β} {o : Origin} {f : α → Value} {g : α → β}
    (h : ∀ x, d o (.ofValue (f x)) = .ok (g x)) (xs : List (String × α)) :
    eachMember d o (ofMembers (xs.map fun x => (x.1, f x.2))) =
      .ok (xs.map fun x => (x.1, g x.2)) := by
  induction xs with
  | nil => rfl
  | cons x xs ih =>
    rw [List.map_cons, ofMembers, eachMember, h x.2, ih]
    rfl

end RuleExchange.Json.Decode

namespace RuleExchange

/-! ### Parts of rule bodies -/

open Json (decodeValue)

theorem Operator.decoder_name (o : Json.Origin) (op : Operator) :
    Operator.decoder o (.str op.name) = .ok op := by
  cases op <;> rfl

theorem Condition.decoder_toJson (name : String) (o : Json.Origin) (c : Condition) :
    Condition.decoder name o (.ofValue c.toJson) = .ok c := by
  have hoperator : Operator.decoder o (.ofValue (.str c.operator.name)) = .ok c.operator :=
    Operator.decoder_name o c.operator
  have hcovers : Json.Decode.Covers (Condition.shape name) ["field", "operator", "value"] := by
    simp [Json.Decode.Covers, Json.Decode.Shape.isField, Condition.shape]
  rw [Condition.decoder, Condition.toJson, Json.Decode.record_ofMembers o _ rfl hcovers ?checks]
  case checks =>
    simp [hoperator]
    exact ⟨rfl, rfl, rfl⟩
  obtain ⟨field, op, value⟩ := c
  cases op <;> rfl

theorem Stage.decoder_toJson {o : Json.Origin} (s : Stage) :
    Stage.decoder o (.ofValue s.toJson) = .ok s := by
  rw [Stage.decoder, Stage.toJson, Json.Decode.record_ofMembers o
    ["dialect", "text"] rfl (by decide) (by simp; exact ⟨rfl, rfl⟩)]
  rfl

theorem NetworkHeader.decoder_toJson (o : Json.Origin) (h : NetworkHeader) :
    NetworkHeader.decoder o (.ofValue h.toJson) = .ok h := by
  rw [NetworkHeader.decoder, NetworkHeader.toJson, Json.Decode.record_ofMembers o
    ["protocol", "source", "source_port", "direction", "destination", "destination_port"]
    rfl (by decide) (by simp; exact ⟨rfl, rfl, rfl, rfl, rfl, rfl⟩)]
  rfl

/-- The fields of a header in the order of their names. -/
theorem NetworkHeader.sorted_toJson (h : NetworkHeader) :
    h.toJson.sorted = .obj [("destination", .str h.destination),
      ("destination_port", .str h.destinationPort), ("direction", .str h.direction),
      ("protocol", .str h.protocol), ("source", .str h.source),
      ("source_port", .str h.sourcePort)] := by
  rfl

theorem NetworkHeader.decoder_sorted (h : NetworkHeader) :
    NetworkHeader.decoder .held (.ofValue h.toJson.sorted) = .ok h := by
  rw [NetworkHeader.decoder, sorted_toJson, Json.Decode.record_ofMembers .held
    ["destination", "destination_port", "direction", "protocol", "source", "source_port"]
    rfl (by decide) (by simp; exact ⟨rfl, rfl, rfl, rfl, rfl, rfl⟩)]
  rfl

end RuleExchange
