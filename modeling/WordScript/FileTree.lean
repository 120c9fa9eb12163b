import WordScript.Text.Split

/-!
# File trees

Directories and files, each at its place, and where a path leads to. A path with a directory in it
that is not there leads nowhere, also when it goes up again from it.
-/

namespace WordScript

/-- The names on the way from the top of a tree. -/
abbrev Location := List String

/-- Directories and files with their contents. The top of the tree is a directory by itself. -/
structure FileTree (α : Type) where
  directories : List Location := []
  files : List (Location × α) := []

/-- The parts of a path that lead somewhere: neither empty nor a single point. -/
def pathParts (path : String) : List String :=
  (Text.splitText '/' path).filter fun part => part ≠ "" && part ≠ "."

/-- Whether a path starts at the top, wherever it is used. -/
def isAbsolutePath (path : String) : Bool :=
  path.toList.head? = some '/'

/-- The path of a file in a directory. -/
def joinPath (directory file : String) : String :=
  if isAbsolutePath file || directory = "" then file
  else if directory.toList.getLast? = some '/' then directory ++ file
  else directory ++ "/" ++ file

namespace FileTree

variable {α : Type}

/-- Whether there is a directory at a location. -/
def isDirectory (t : FileTree α) (location : Location) : Bool :=
  location.isEmpty || t.directories.contains location

/-- Where the parts of a path lead to from a location. -/
def follow? (t : FileTree α) : Location → List String → Option Location
  | here, [] => some here
  | here, part :: parts =>
    if !t.isDirectory here then none
    else if part = ".." then t.follow? here.dropLast parts
    else t.follow? (here ++ [part]) parts

/-- The contents of the file at a location. -/
def contentAt? (t : FileTree α) (location : Location) : Option α :=
  (t.files.find? fun file => file.1 = location).map Prod.snd

/-- The contents of the file that a path leads to. -/
def file? (t : FileTree α) (path : String) : Option α :=
  (t.follow? [] (pathParts path)).bind t.contentAt?

/-- Whether a path leads to a file. -/
def isFile (t : FileTree α) (path : String) : Bool :=
  (t.file? path).isSome

/-- Makes the directories on the way along the parts of a path, and gives where it leads to. -/
def makeWay (t : FileTree α) : Location → List String → Location × FileTree α
  | here, [] => (here, t)
  | here, part :: parts =>
    if part = ".." then t.makeWay here.dropLast parts
    else
      let there := here ++ [part]
      let t := if t.isDirectory there then t else { t with directories := there :: t.directories }
      t.makeWay there parts

/-- Makes a directory, and all those on the way to it. -/
def makeDirectory (t : FileTree α) (path : String) : FileTree α :=
  (t.makeWay [] (pathParts path)).2

/-- Makes a file, and all directories on the way to it. -/
def makeFile (t : FileTree α) (path : String) (content : α) : FileTree α :=
  match (pathParts path).getLast? with
  | none => t
  | some name =>
    let (here, t) := t.makeWay [] (pathParts path).dropLast
    { t with files := (here ++ [name], content) :: t.files }

end FileTree

end WordScript
