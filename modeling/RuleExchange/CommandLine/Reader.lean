import RuleExchange.CommandLine.Grammar

/-!
Reading a command line by a grammar. Words are taken from left to right. An option
whose value is still to come is held back; it is settled, and its value checked, when
the next option or plain word is met or when the line ends. So the first fault is
reported where it becomes certain, and faults of a subcommand come before those of an
option held back in front of it.
-/

namespace RuleExchange.CommandLine

/-- What a command line gives: the subcommands chosen, and values by parameter, those of the
innermost command first. -/
structure Given where
  chosen : List String := []
  values : List (String × String) := []
  deriving DecidableEq, Repr

namespace Given

def value? (g : Given) (name : String) : Option String :=
  (g.values.find? (·.1 == name)).map (·.2)

def has (g : Given) (name : String) : Bool := (g.value? name).isSome

end Given

/-- A command together with the shared options of the commands around it. -/
structure Scope where
  command : Command
  around : List Parameter := []

namespace Scope

def options (s : Scope) : List Parameter := s.command.options ++ s.around

def long? (s : Scope) (name : String) : Option Parameter := s.options.find? (·.name == name)

def short? (s : Scope) (c : Char) : Option Parameter := s.options.find? (·.short == some c)

/-- The scope of a subcommand. -/
def enter (s : Scope) (c : Command) : Scope := ⟨c, s.options.filter (·.shared)⟩

end Scope

/-- How far one command has been read. -/
structure Progress where
  values : List (String × String) := []
  /-- A parameter held back, with its value once that is there. -/
  held : Option (Parameter × Option String) := none
  /-- The number of plain words taken. -/
  placed : Nat := 0
  /-- Whether a lone `--` was met: all words after it are plain. -/
  plainOnly : Bool := false

namespace Progress

/-- Whether the next word is the value of an option. -/
def awaits (p : Progress) : Bool :=
  match p.held with
  | some (_, none) => !p.plainOnly
  | _ => false

def store (p : Progress) (q : Parameter) (value : String) : Except Misuse Progress := do
  if p.values.any (·.1 == q.name) then .error (.repeated q.name)
  else
    match q.effect with
    | .value kind => kind.check q.name value
    | _ => .ok ()
    return { p with values := p.values ++ [(q.name, value)] }

/-- Stores what is held back. -/
def settle (p : Progress) : Except Misuse Progress :=
  match p.held with
  | none => .ok p
  | some (q, none) => .error (.unsuitableValue q.name)
  | some (q, some v) => { p with held := none }.store q v

/-- Meets a parameter that has its value, or needs none. -/
def meet (p : Progress) (q : Parameter) (value : String) : Except Misuse Progress := do
  let p ← p.settle
  match q.effect with
  | .help => .error .help
  | .version => .error .version
  | _ => p.store q value

/-- Meets an option whose value is the next word. -/
def await (p : Progress) (q : Parameter) : Except Misuse Progress := do
  let p ← p.settle
  return { p with held := some (q, none) }

def takesValue (q : Parameter) : Bool :=
  match q.effect with
  | .value _ => true
  | _ => false

/-- The value that flags are stored with. -/
def flagValue : String := "true"

/-- An option by its long name, with the text after `=` if there is one. -/
def long (p : Progress) (s : Scope) (name : String) (value : Option String) :
    Except Misuse Progress :=
  match s.long? name, value with
  | none, _ => .error (.unknownArgument ("--" ++ name))
  | some q, some v => if takesValue q then p.meet q v else .error (.needlessValue name)
  | some q, none => if takesValue q then p.await q else p.meet q flagValue

/-- One-letter options written together; the first one that takes a value takes all that follows
it, less an equals sign. -/
def short (p : Progress) (s : Scope) : List Char → Except Misuse Progress
  | [] => .ok p
  | c :: cs =>
    match s.short? c with
    | none => .error (.unknownArgument (String.ofList ['-', c]))
    | some q =>
      if takesValue q then
        match cs with
        | [] => p.await q
        | '=' :: v => p.meet q (String.ofList v)
        | v => p.meet q (String.ofList v)
      else do
        let p ← p.meet q flagValue
        p.short s cs

/-- A plain word in the next place. -/
def plain (p : Progress) (s : Scope) (word : String) : Except Misuse Progress :=
  match s.command.places[p.placed]? with
  | some q => do
    let p ← p.settle
    return { p with held := some (q, some word), placed := p.placed + 1 }
  | none =>
    let known := (s.command.find? word).isSome || word == helpWord
    if s.command.hasSubcommands && !(p.plainOnly && known) then .error (.unknownSubcommand word)
    else .error (.unknownArgument word)

/-- What is asked of a line that ends without a subcommand. -/
def finish (p : Progress) (s : Scope) : Except Misuse Given := do
  let p ← p.settle
  if s.command.hasSubcommands then
    .error (if p.values.isEmpty then .nothingGiven else .missingSubcommand)
  else
    let wanted := s.command.options ++ s.command.places
    match wanted.find? fun q => q.required && !p.values.any (·.1 == q.name) with
    | some q => .error (.missingArgument q.name)
    | none => .ok { values := p.values }

end Progress

/-- Follows the words after `help` down the subcommands. -/
def explain (c : Command) : List String → Misuse
  | [] => .help
  | w :: ws =>
    match c.find? w with
    | some sub => explain sub ws
    | none =>
      if w == helpWord && c.hasSubcommands then
        match ws with
        | [] => .help
        | x :: _ => .unknownSubcommand x
      else .unknownSubcommand w

/-- The form of a word. -/
inductive Form where
  | plain
  | long (name : String) (value : Option String)
  | short (letters : List Char)
  deriving DecidableEq, Repr

/-- A lone dash is a plain word. -/
def Form.ofWord (s : List Char) : Form :=
  match s with
  | '-' :: '-' :: rest =>
    match Text.cut? ['='] rest with
    | some (name, value) => .long (String.ofList name) (some (String.ofList value))
    | none => .long (String.ofList rest) none
  | '-' :: c :: cs => .short (c :: cs)
  | _ => .plain

def readFrom (s : Scope) (p : Progress) : List String → Except Misuse Given
  | [] => p.finish s
  | w :: ws =>
    if p.plainOnly then do
      let p ← p.plain s w
      readFrom s p ws
    else
      match if p.awaits then none else s.command.find? w with
      | some sub => do
        let inner ← readFrom (s.enter sub) {} ws
        let p ← p.settle
        return { chosen := sub.name :: inner.chosen, values := inner.values ++ p.values }
      | none =>
        if !p.awaits && w == helpWord && s.command.hasSubcommands then
          .error (explain s.command ws)
        else if w == "--" then readFrom s { p with plainOnly := true } ws
        else
          match Form.ofWord w.toList with
          | .long name value => do
            let p ← p.long s name value
            readFrom s p ws
          | .short letters => do
            let p ← p.short s letters
            readFrom s p ws
          | .plain =>
            match p.held with
            | some (q, none) => readFrom s { p with held := some (q, some w) } ws
            | _ => do
              let p ← p.plain s w
              readFrom s p ws

/-- Reads the words of a command line. -/
def read (c : Command) (words : List String) : Except Misuse Given := readFrom ⟨c, []⟩ {} words

end RuleExchange.CommandLine
