import RuleExchange.Text.Part

/-!
A tree of text files, as far as the programs here touch one: files are read, removed,
and created where nothing stands yet, with the folders above them.
-/

namespace RuleExchange

/-- The names on the way to a file, from the outside in. -/
abbrev Trail := List String

structure Storage where
  files : List (Trail × String) := []
  folders : List Trail := []

namespace Storage

inductive Fault where
  | absent
  | folder
  | notFolder
  | present
  | notText
  deriving DecidableEq, Repr

def Fault.message : Fault → String
  | absent => "No such file or directory (os error 2)"
  | folder => "Is a directory (os error 21)"
  | notFolder => "Not a directory (os error 20)"
  | present => "File exists (os error 17)"
  | notText => "stream did not contain valid UTF-8"

/-- The trail of a path; a path from the root starts with `/`. -/
def trail (path : String) : Trail :=
  let names := (Text.splitWhere (· == '/') path.toList).map String.ofList
  let inner := names.filter fun n => !n.isEmpty && n != "."
  if path.toList.head? = some '/' then "/" :: inner else inner

/-- Whether a path can only be a folder. -/
def namesFolder (path : String) : Bool :=
  match path.toList.reverse with
  | '/' :: _ => true
  | ['.'] => true
  | '.' :: '/' :: _ => true
  | _ => false

def ofFiles (files : List (String × String)) : Storage :=
  { files := files.map fun (path, text) => (trail path, text) }

def file? (s : Storage) (t : Trail) : Option String :=
  (s.files.find? (·.1 == t)).map (·.2)

def isFolder (s : Storage) (t : Trail) : Bool :=
  t.isEmpty || s.folders.contains t || s.files.any fun (f, _) => t.isPrefixOf f && t != f

/-- Whether a file stands where a folder is needed on the way. -/
def blocked (s : Storage) (t : Trail) : Bool :=
  s.files.any fun (f, _) => f.isPrefixOf t && f != t

def read (s : Storage) (path : String) : Except Fault String :=
  let t := trail path
  if path.isEmpty then .error .absent
  else if s.blocked t then .error .notFolder
  else match s.file? t with
    | some text => if namesFolder path then .error .notFolder else .ok text
    | none => if s.isFolder t then .error .folder else .error .absent

/-- Makes the folders of a trail. -/
def makeFolders (s : Storage) (t : Trail) : Except Fault Storage :=
  if s.blocked t then .error .notFolder
  else if (s.file? t).isSome then .error .present
  else .ok { s with folders := s.folders ++ (List.range t.length).map fun n => t.take (n + 1) }

/-- A new file, where nothing stands yet. -/
def create (s : Storage) (path text : String) : Except Fault Storage :=
  let t := trail path
  if path.isEmpty then .error .absent
  else if s.blocked t then .error .notFolder
  else if (s.file? t).isSome || s.isFolder t then .error .present
  else if namesFolder path then .error .folder
  else if !s.isFolder t.dropLast then .error .absent
  else .ok { s with files := s.files ++ [(t, text)] }

def remove (s : Storage) (path : String) : Storage :=
  { s with
    files := s.files.filter (·.1 != trail path)
    folders := s.folders ++ (List.range (trail path).length).map fun n => (trail path).take n }

end Storage

end RuleExchange
