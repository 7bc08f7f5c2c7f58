import SpanRegex.Text

/-! # The folder that the program runs in

* `ReadFault`: why a file cannot be read; `ReadFault.message`: the wording.
* `Folder`: the files of a folder that holds nothing else.
* `Folder.follow`: where a path leads; `Folder.read`: the text of the file it leads to.

The names of a path are followed from left to right, and the first that leads nowhere gives the
fault. Above the folder are only folders without files.
-/

namespace SpanRegex.CommandLine
set_option autoImplicit false

/-! ## Faults -/

/-- Why a file cannot be read. -/
inductive ReadFault
  | missing
  /-- A name goes on behind a file. -/
  | notFolder
  | isFolder
  /-- A name, or the whole path, has too many bytes. -/
  | nameTooLong
  deriving DecidableEq, Repr

namespace ReadFault

def number : ReadFault → Nat
  | missing => 2
  | notFolder => 20
  | isFolder => 21
  | nameTooLong => 36

def ofNumber? (n : Nat) : Option ReadFault :=
  [missing, notFolder, isFolder, nameTooLong].find? (·.number == n)

def words : ReadFault → String
  | missing => "No such file or directory"
  | notFolder => "Not a directory"
  | isFolder => "Is a directory"
  | nameTooLong => "File name too long"

def message (f : ReadFault) : String := f.words ++ " (os error " ++ toString f.number ++ ")"

end ReadFault

/-! ## Paths -/

def mostNameBytes : Nat := 255

def mostPathBytes : Nat := 4095

/-- The name before the first slash of a path, and the names after each slash. -/
def namesOf : List Char → List Char × List (List Char)
  | [] => ([], [])
  | c :: cs =>
    match namesOf cs with
    | (first, rest) => if c == '/' then ([], first :: rest) else (c :: first, rest)

/-! ## Folders -/

/-- The files of a folder: name and text. -/
structure Folder where
  files : List (String × String)

/-- A place that a path can lead to. -/
inductive Place
  | here
  | above
  /-- A file with this text. -/
  | file (text : String)
  deriving DecidableEq, Repr

namespace Folder

/-- The place that a name leads to from a folder: no name, like a dot, stays. -/
def enter (d : Folder) (above : Bool) (name : List Char) : Except ReadFault Place :=
  if name.isEmpty || name == ['.'] then .ok (if above then .above else .here)
  else if name == ['.', '.'] then .ok .above
  else if mostNameBytes < (String.ofList name).utf8ByteSize then .error .nameTooLong
  else if above then .error .missing
  else
    match d.files.lookup (String.ofList name) with
    | some text => .ok (.file text)
    | none => .error .missing

/-- The place that a name leads to from a place. -/
def step (d : Folder) (name : List Char) : Place → Except ReadFault Place
  | .here => d.enter false name
  | .above => d.enter true name
  | .file _ => .error .notFolder

/-- The place that names lead to, one after the other. -/
def follow (d : Folder) (p : Place) : List (List Char) → Except ReadFault Place
  | [] => .ok p
  | name :: rest =>
    match d.step name p with
    | .ok p => d.follow p rest
    | .error fault => .error fault

/-- The place that a path leads to: a path that starts with a slash starts above. -/
def locate (d : Folder) (path : String) : Except ReadFault Place :=
  if path.isEmpty then .error .missing
  else if mostPathBytes < path.utf8ByteSize then .error .nameTooLong
  else
    match namesOf path.toList with
    | ([], rest) => d.follow .above rest
    | (first, rest) => d.follow .here (first :: rest)

/-- The text of the file that a path leads to. -/
def read (d : Folder) (path : String) : Except ReadFault String :=
  match d.locate path with
  | .ok (.file text) => .ok text
  | .ok _ => .error .isFolder
  | .error fault => .error fault

end Folder

end SpanRegex.CommandLine
