import RuleExchange.Decimal.Read

/-!
Grammars of command lines. A command has options, places for plain words, and
subcommands; an option marked as shared is understood by every subcommand too. A
command that has subcommands also has the word `help`, which names a subcommand to
explain.
-/

namespace RuleExchange.CommandLine

/-- What the value of a parameter may be. -/
inductive ValueKind where
  | text
  /-- A text that is not empty. -/
  | path
  /-- A whole number of so many bits. -/
  | whole (bits : Nat)
  | oneOf (words : List String)
  deriving DecidableEq, Repr

/-- What a parameter does when it is met. -/
inductive Effect where
  | flag
  | value (kind : ValueKind)
  | help
  | version
  deriving DecidableEq, Repr

structure Parameter where
  /-- The long name, or the name of a place. -/
  name : String
  short : Option Char := none
  effect : Effect
  required : Bool := false
  /-- Whether every subcommand understands it as well. -/
  shared : Bool := false
  deriving DecidableEq, Repr

/-- A command, with the commands below it. -/
inductive Command where
  | mk (name : String) (options places : List Parameter) (subcommands : List Command)

namespace Command

def name : Command → String
  | mk n _ _ _ => n

def options : Command → List Parameter
  | mk _ os _ _ => os

/-- The plain words that are taken, in order. -/
def places : Command → List Parameter
  | mk _ _ ps _ => ps

def subcommands : Command → List Command
  | mk _ _ _ cs => cs

def hasSubcommands (c : Command) : Bool := !c.subcommands.isEmpty

def find? (c : Command) (word : String) : Option Command :=
  c.subcommands.find? (·.name == word)

end Command

/-- The word that asks for an explanation of a subcommand. -/
def helpWord : String := "help"

def helpOption : Parameter := { name := "help", short := some 'h', effect := .help }

def versionOption : Parameter := { name := "version", short := some 'V', effect := .version }

/-- An option as it is explained. -/
def Parameter.usage (p : Parameter) : String :=
  let short := match p.short with
    | some c => String.ofList ['-', c, ',', ' ']
    | none => "    "
  let value := match p.effect with
    | .value (.oneOf words) => " <" ++ Text.joined "|" words ++ ">"
    | .value _ => " <" ++ p.name ++ ">"
    | _ => ""
  "  " ++ short ++ "--" ++ p.name ++ value

/-- What a command takes, line by line. -/
def Command.usage (c : Command) : List String :=
  let words := (if c.hasSubcommands then ["<COMMAND>"] else []) ++
    c.places.map fun p => "<" ++ p.name ++ ">"
  ["Usage: " ++ Text.joined " " (c.name :: "[OPTIONS]" :: words)] ++
    (if c.hasSubcommands then "Commands:" :: c.subcommands.map fun s => "  " ++ s.name else []) ++
    ("Options:" :: c.options.map Parameter.usage)

/-- Why a command line does not lead to an action. -/
inductive Misuse where
  /-- Help was asked for. -/
  | help
  /-- The version was asked for. -/
  | version
  /-- Nothing was given where a subcommand is needed. -/
  | nothingGiven
  | missingSubcommand
  | unknownSubcommand (word : String)
  | unknownArgument (word : String)
  | missingArgument (name : String)
  | repeated (name : String)
  /-- An option that takes a value has none, or has one that is not among its words. -/
  | unsuitableValue (name : String)
  /-- A value that is no number, or a number out of bounds. -/
  | unreadableValue (name : String)
  /-- A flag was given a value. -/
  | needlessValue (name : String)
  deriving DecidableEq, Repr

namespace Misuse

/-- Help and version are no errors. -/
def exitCode : Misuse → Nat
  | help | version => 0
  | _ => 2

def message : Misuse → String
  | help => "help requested"
  | version => "version requested"
  | nothingGiven => "a subcommand is needed"
  | missingSubcommand => "a subcommand is needed"
  | unknownSubcommand w => "unrecognized subcommand '" ++ w ++ "'"
  | unknownArgument w => "unexpected argument '" ++ w ++ "'"
  | missingArgument n => "required argument '" ++ n ++ "' was not given"
  | repeated n => "argument '" ++ n ++ "' was given more than once"
  | unsuitableValue n => "a suitable value is needed for '" ++ n ++ "'"
  | unreadableValue n => "invalid value for '" ++ n ++ "'"
  | needlessValue n => "'" ++ n ++ "' takes no value"

end Misuse

/-- Numbers narrower than a machine word may carry a minus sign, which leaves only zero. -/
def readWhole (bits : Nat) (s : List Char) : Option Nat :=
  match s with
  | '-' :: ds =>
    if bits < 64 && !ds.isEmpty && ds.all (· == '0') then some 0 else none
  | _ => Decimal.readNat (Nat.pow 2 bits - 1) s

/-- Whether a text is a value of a kind. -/
def ValueKind.check (kind : ValueKind) (name value : String) : Except Misuse Unit :=
  match kind with
  | text => .ok ()
  | path => if value.isEmpty then .error (.unsuitableValue name) else .ok ()
  | whole bits =>
    match readWhole bits value.toList with
    | some _ => .ok ()
    | none => .error (.unreadableValue name)
  | oneOf words => if words.contains value then .ok () else .error (.unsuitableValue name)

end RuleExchange.CommandLine
