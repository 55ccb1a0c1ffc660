import Discharge.Cli.Actions

/-!
# Files in memory

Calls can be run on files that are held in memory. They lie in a folder of
their own below the root, together with a device that is always empty; all
other folders hold nothing.
-/

namespace Discharge.Cli

/-- The names on the way from the root. -/
abbrev Location := List String

/-- Files by their locations. -/
structure Directory where
  files : List (Location × String)

namespace Directory

/-- The folder in which calls are run. -/
def home : Location := ["tmp", "work"]

/-- The device that is always empty, whatever is written to it. -/
def sink : Location := ["dev", "null"]

/-- The most bytes in a name. -/
def maxName : Nat := 255

/-- The most bytes in a path. -/
def maxPath : Nat := 4095

/-- The names in a path. -/
def names (path : String) : List String :=
  (path.splitOn "/").filter (· != "")

/-- The device, and the given files under their paths from the folder in which
calls are run. -/
def ofFiles (files : List (String × String)) : Directory :=
  ⟨(sink, "") :: files.map fun (path, text) => (home ++ names path, text)⟩

/-- There is a folder at the location. -/
def isFolder (d : Directory) (l : Location) : Bool :=
  l.isPrefixOf home || d.files.any fun (path, _) => l.isPrefixOf path

/-- What a path leads to. -/
inductive Place where
  | file (location : Location) (text : String)
  | folder
  /-- Nothing yet, in a folder that is there. -/
  | vacant (location : Location)
  /-- Nothing that could be there, since its name is too long. -/
  | overlong
  /-- The path breaks off on the way. -/
  | nowhere (reason : FileError)

/-- Follow names from a folder. -/
def follow (d : Directory) (folder : Location) : List String → Place
  | [] => .folder
  | "." :: rest => d.follow folder rest
  | ".." :: rest => d.follow folder.dropLast rest
  | name :: rest =>
    if maxName < name.utf8ByteSize then
      if rest.isEmpty then .overlong else .nowhere .nameTooLong
    else match d.files.lookup (folder ++ [name]) with
      | some text => if rest.isEmpty then .file (folder ++ [name]) text else .nowhere .notDirectory
      | none =>
        if d.isFolder (folder ++ [name]) then d.follow (folder ++ [name]) rest
        else if rest.isEmpty then .vacant (folder ++ [name])
        else .nowhere .missing

/-- What a path leads to, from the root if it starts there. -/
def locate (d : Directory) (path : String) : Place :=
  if path.isEmpty then .nowhere .missing
  else if maxPath < path.utf8ByteSize then .nowhere .nameTooLong
  else d.follow (if path.startsWith "/" then [] else home) (names path)

/-- The text of a file. A path that ends in a slash leads to no file. -/
def read (d : Directory) (path : String) : Except FileError String :=
  match d.locate path with
  | .file _ text => if path.endsWith "/" then .error .notDirectory else .ok text
  | .folder => .error .isDirectory
  | .vacant _ => .error .missing
  | .overlong => .error .nameTooLong
  | .nowhere e => .error e

/-- The directory with a text in a file. No file is made under a path that ends
in a slash. -/
def write (d : Directory) (path text : String) : Except FileError Directory :=
  match d.locate path, path.endsWith "/" with
  | .nowhere e, _ => .error e
  | .folder, _ | .file .., true | .vacant _, true | .overlong, true => .error .isDirectory
  | .overlong, false => .error .nameTooLong
  | .file l _, false | .vacant l, false =>
    .ok (if l = sink then d else ⟨(l, text) :: d.files.filter (·.1 != l)⟩)

/-- Nothing can be run: a program is looked up under its path, or under its name
in folders that hold none. -/
def program (d : Directory) (path : String) : Program.Lookup :=
  if path.contains '/' then
    match d.read path with
    | .ok _ | .error .isDirectory => .error .denied
    | .error e => .error e
  else if path = "." || path = ".." then .error .denied
  else if maxName < path.utf8ByteSize then .error .nameTooLong
  else .error .missing

/-- Run a call in a directory, and save what it hands over. -/
def run (d : Directory) (i : Invocation) : Report × Directory :=
  let report := i.run ⟨d.read, d.program⟩
  match report.save with
  | none => (report, d)
  | some (path, text) =>
    match d.write path text with
    | .ok d' => (report.saved path (.ok ()), d')
    | .error e => (report.saved path (.error e), d)

end Directory

end Discharge.Cli
