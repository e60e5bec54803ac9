/-!
# Files by their paths

A directory holds files, some of them perhaps in directories below it.  A path is walked part by
part from the directory at hand: an empty part and `.` stay where they are, `..` goes up, and a name
goes down.  Each of them needs a directory to go from, so `a/.` fails if `a` is a file.  Of what lies
above the directory at hand nothing is known but that there are directories.
-/

namespace Scriptlet

/-- Why a file cannot be read. -/
inductive ReadFailure where
  /-- There is no such file. -/
  | missing
  /-- The path goes on behind a file. -/
  | notDirectory
  /-- The path is that of a directory. -/
  | directory
  /-- The bytes are not UTF-8. -/
  | notText
  /-- Any other reason, in the words of the system. -/
  | other (reason : String)
deriving Repr, DecidableEq

/-- The wording of a failure. -/
def ReadFailure.text : ReadFailure → String
  | missing => "No such file or directory (os error 2)"
  | notDirectory => "Not a directory (os error 20)"
  | directory => "Is a directory (os error 21)"
  | notText => "stream did not contain valid UTF-8"
  | other reason => reason

namespace Path

/-- The parts of a path, between its slashes. -/
def parts : List Char → List (List Char)
  | [] => [[]]
  | c :: rest =>
    if c = '/' then [] :: parts rest
    else match parts rest with
      | [] => [[c]]
      | part :: more => (c :: part) :: more

/-- Parts that stay where they are. -/
def stays (part : List Char) : Bool := part == [] || part == ['.']

/-- The part that goes up. -/
def climbs (part : List Char) : Bool := part == ['.', '.']

end Path

/-- A place that the walk along a path comes to. -/
inductive Spot where
  /-- What the given names lead to, the last one first. -/
  | inside (names : List (List Char))
  /-- A directory above the one at hand. -/
  | above
deriving Repr, DecidableEq

/-- Files with the names that lead to them, the last one first. -/
structure Directory where
  /-- The files. -/
  files : List (List (List Char) × ByteArray) := []

namespace Directory

/-- The directory of files given by paths. -/
def ofFiles (files : List (String × ByteArray)) : Directory :=
  ⟨files.map fun (path, bytes) =>
    (((Path.parts path.toList).filter (!Path.stays ·)).reverse, bytes)⟩

/-- The file that names lead to. -/
def file? (d : Directory) (names : List (List Char)) : Option ByteArray := d.files.lookup names

/-- Whether names lead to a directory: to the one at hand, or to one above some file. -/
def isDirectory (d : Directory) (names : List (List Char)) : Bool :=
  names.isEmpty || d.files.any fun (file, _) => file != names && names.isSuffixOf file

/-- Walks one part of a path. -/
def step (d : Directory) (spot : Spot) (part : List Char) : Except ReadFailure Spot :=
  match spot with
  | .above => if Path.stays part || Path.climbs part then .ok .above else .error .missing
  | .inside names =>
    if !d.isDirectory names then .error .notDirectory
    else if Path.stays part then .ok spot
    else if Path.climbs part then
      match names with
      | [] => .ok .above
      | _ :: up => .ok (.inside up)
    else if (d.file? (part :: names)).isSome || d.isDirectory (part :: names) then
      .ok (.inside (part :: names))
    else .error .missing

/-- Where a path leads.  One that starts with a slash starts above; the empty path leads
nowhere. -/
def walk (d : Directory) (path : List Char) : Except ReadFailure Spot :=
  match path with
  | [] => .error .missing
  | '/' :: _ => (Path.parts path).foldlM d.step .above
  | _ => (Path.parts path).foldlM d.step (.inside [])

/-- The bytes of the file that a path leads to. -/
def read (d : Directory) (path : String) : Except ReadFailure ByteArray :=
  match d.walk path.toList with
  | .error failure => .error failure
  | .ok .above => .error .directory
  | .ok (.inside names) =>
    match d.file? names with
    | some bytes => .ok bytes
    | none => .error .directory

end Directory

end Scriptlet
