/-!
# Files

Why a file cannot be read, and the files that a command can reach: those of the folder it is started
in, and the few places that every system has under its root.

A path is followed name by name. The first name that leads nowhere decides why the file cannot be
read: a name behind a file, a name that is too long, a name that nothing has.
-/

namespace Quill

/-- Why a file cannot be read. -/
inductive FileFault where
  /-- There is no such file. -/
  | notFound
  /-- The path leads through a file. -/
  | notDirectory
  /-- The path leads to a folder. -/
  | isDirectory
  /-- The path, or a name in it, is too long. -/
  | nameTooLong
  /-- Some other reason. -/
  | other (reason : String)
deriving DecidableEq

namespace FileFault

/-- The reason in words. -/
def message : FileFault → String
  | notFound => "No such file or directory (os error 2)"
  | notDirectory => "Not a directory (os error 20)"
  | isDirectory => "Is a directory (os error 21)"
  | nameTooLong => "File name too long (os error 36)"
  | other reason => reason

/-- A folder can be opened but not read; everything else fails at once. -/
def verb : FileFault → String
  | isDirectory => "read"
  | _ => "open"

end FileFault

/-! ## Places -/

/-- The greatest number of bytes in a name. -/
def maxNameBytes : Nat := 255

/-- The greatest number of bytes in a path. -/
def maxPathBytes : Nat := 4095

/-- A folder without folders in it: names with their bytes. -/
structure Folder where
  /-- The files. -/
  files : List (String × List UInt8)

/-- Where a path leads. -/
inductive Place where
  /-- The folder that the command is started in. -/
  | here
  /-- A folder around it; nothing is known of what else is there. -/
  | around
  /-- The root of the system. -/
  | root
  /-- A folder that every system has directly under its root. -/
  | system (name : String)
  /-- A file with its bytes. -/
  | file (bytes : List UInt8)

/-- The folders that every system has directly under its root. -/
def systemFolders : List String :=
  ["bin", "dev", "etc", "home", "lib", "media", "mnt", "opt", "proc", "run", "sbin", "srv", "sys",
   "tmp", "usr", "var"]

/-- The devices from which nothing is read. Nothing is given to a command on its standard input. -/
def emptyDevices : List String := ["null", "stdin"]

namespace Place

/-- The folder around a place. The root is around itself. -/
def parent : Place → Place
  | root => root
  | system _ => root
  | _ => around

end Place

namespace Folder

/-- The folder with a file in it, in place of one of that name. -/
def put (folder : Folder) (name : String) (bytes : List UInt8) : Folder :=
  ⟨(name, bytes) :: folder.files.filter fun file => file.1 != name⟩

/-- Where a name leads from a place. -/
def child? (folder : Folder) : Place → String → Option Place
  | .here, name => (folder.files.lookup name).map .file
  | .root, name => if systemFolders.contains name then some (.system name) else none
  | .system parent, name =>
    if parent = "dev" && emptyDevices.contains name then some (.file []) else none
  | _, _ => none

/-- Follows a path, name by name. -/
def follow (folder : Folder) : Place → List String → Except FileFault Place
  | place, [] => .ok place
  | .file _, _ :: _ => .error .notDirectory
  | place, name :: rest =>
    if name = "" || name = "." then folder.follow place rest
    else if name = ".." then folder.follow place.parent rest
    else if maxNameBytes < name.utf8ByteSize then .error .nameTooLong
    else match folder.child? place name with
      | some next => folder.follow next rest
      | none => .error .notFound

/-- The bytes of the file at a path. -/
def read (folder : Folder) (path : String) : Except FileFault (List UInt8) :=
  if maxPathBytes < path.utf8ByteSize then .error .nameTooLong
  else
    let start := if path.startsWith "/" then Place.root else Place.here
    match folder.follow start (path.splitOn "/") with
    | .ok (.file bytes) => .ok bytes
    | .ok _ => .error .isDirectory
    | .error fault => .error fault

end Folder

end Quill
