import WordScript.FileTree
import WordScript.Operation

/-!
# Libraries

Modules that are kept in files. The file of a module has the name of the module and the suffix of
libraries; it is looked for in the directories of a search path, one after the other.
-/

namespace WordScript

/-- What the file of a library holds. -/
inductive LibraryFile where
  | module (entry : List Expression → Script Unit)
  /-- A library without the entry point of a module. -/
  | withoutEntry (diagnostic : String)
  /-- Something else than a library. -/
  | malformed (diagnostic : String)

/-- The directories where libraries are looked for, and all files. -/
structure Library where
  searchPath : List String
  files : FileTree LibraryFile

namespace Library

/-- What the name of every library file ends in. -/
def suffix : String := ".so"

/-- The name that a module has its entry point under. -/
def entryName : String := "sil_load_lib"

/-- The directories that are listed in a text, with colons between them. -/
def searchPathOf (listing : String) : List String :=
  Text.splitText ':' listing

/--
The file of a module: the first one that is there in a directory of the search path, or else the
bare file name.
-/
def locate (l : Library) (path : String) : String :=
  let file := path ++ suffix
  ((l.searchPath.map fun directory => joinPath directory file).find? l.files.isFile).getD file

/-- Opens a module. -/
def openModule (l : Library) (path : String) :
    Except RuntimeError (List Expression → Script Unit) :=
  let file := l.locate path
  match l.files.file? file with
  | some (.module entry) => .ok entry
  | some (.withoutEntry diagnostic) => .error (.moduleSymbol entryName diagnostic)
  | some (.malformed diagnostic) => .error (.moduleOpen file diagnostic)
  | none => .error (.moduleOpen file (file ++ ": no such file"))

end Library

end WordScript
