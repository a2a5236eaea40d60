import RuleExchange.Json.Decode

/-! Records whose fields all have defaults. A record type is given by the list of its
members in declared order; reading starts from the default and sets each member that
the text gives, writing lists the members that are not left out. -/

namespace RuleExchange.Json

/-- One member of a record: how it is read into a record and written from one. -/
structure Member (σ : Type) where
  name : String
  read : Origin → Source → σ → Except Misfit σ
  /-- The written value, unless the member is left out. -/
  write : σ → Option Value

namespace Member

variable {σ α : Type}

def of (name : String) (d : Decoder α) (e : α → Value) (get : σ → α) (set : α → σ → σ) :
    Member σ :=
  { name
    read := fun o v s => (d o v).map fun a => set a s
    write := fun s => some (e (get s)) }

/-- A member that is left out when it has no value. -/
def optional (name : String) (d : Decoder α) (e : α → Value) (get : σ → Option α)
    (set : Option α → σ → σ) : Member σ :=
  { name
    read := fun o v s => (Decode.option d o v).map fun a => set a s
    write := fun s => (get s).map e }

def string (name : String) (get : σ → String) (set : String → σ → σ) : Member σ :=
  of name Decode.string .str get set

def bool (name : String) (get : σ → Bool) (set : Bool → σ → σ) : Member σ :=
  of name Decode.bool .bool get set

def float (name : String) (get : σ → Float) (set : Float → σ → σ) : Member σ :=
  of name Decode.float .float get set

/-- A natural number of so many bits. -/
def nat (name : String) (bits : Nat) (get : σ → Nat) (set : Nat → σ → σ) : Member σ :=
  of name (Decode.natural ("u" ++ toString bits) bits) .nat get set

end Member

namespace Record

variable {σ : Type}

/-- Sets members in the order of the text. -/
def fromMembers (ms : List (Member σ)) (closed : Bool) (o : Origin) :
    List String → σ → List (Option String × Source) → Except Misfit σ
  | _, s, [] => .ok s
  | _, _, (none, _) :: _ => .error .malformed
  | seen, s, (some k, v) :: rest =>
    match ms.find? (·.name == k) with
    | some m =>
      if seen.contains k then .error (.unfit ("duplicate field `" ++ k ++ "`"))
      else do
        let s ← m.read o v s
        fromMembers ms closed o (k :: seen) s rest
    | none =>
      if closed then .error (.unfit ("unknown field `" ++ k ++ "`"))
      else do
        Decode.skip v
        fromMembers ms closed o seen s rest

/-- Sets members in declared order. -/
def fromItems (o : Origin) : List (Member σ) → σ → List Source → Except Misfit (σ × Nat)
  | m :: ms, s, v :: vs => do
    let s ← m.read o v s
    fromItems o ms s vs
  | _, s, vs => .ok (s, vs.length)

def decode (name : String) (ms : List (Member σ)) (closed : Bool) (default : σ) : Decoder σ
  | o, .obj members => fromMembers ms closed o [] default members
  | o, .arr items => do
    let (s, extra) ← fromItems o ms default items
    if extra = 0 then .ok s
    else match o with
      | .text => .error .malformed
      | .held => .error (.unfit ("invalid length " ++ toString items.length ++
          ", expected fewer elements in array"))
      | .lenient => .ok s
  | _, v => wrongType v ("struct " ++ name)

def encode (ms : List (Member σ)) (s : σ) : Value :=
  .obj (ms.filterMap fun m => (m.write s).map fun v => (m.name, v))

end Record

end RuleExchange.Json
