import TreeWalk.Text.Basic

/-!
Files: paths as text, and what is found at them.
-/

namespace TreeWalk.Path

/-! ### Paths

Paths as text. Parts are joined by slashes; an empty part and the part `.` lead nowhere, except that a
path keeps a `.` at its start. The directory of a path is its text without the last part that leads
somewhere. -/

/-- The texts between the slashes. -/
def parts (path : String) : List String := (Text.splitAt '/' path.toList).map String.ofList

def isAbsolute (path : String) : Bool := path.toList.head? = some '/'

/-- What a path starts from: the root, the part `.`, or neither; and the text behind it. -/
def splitStart (path : String) : String × String :=
  match path.toList with
  | '/' :: rest => ("/", String.ofList rest)
  | ['.'] => (".", "")
  | '.' :: '/' :: rest => (".", String.ofList ('/' :: rest))
  | _ => ("", path)

/-- Whether a part leads nowhere. -/
def isIdle (part : String) : Bool := part = "" || part = "."

/-- The directory that a path names something in. The root and the empty path have none. -/
def parent? (path : String) : Option String :=
  let (start, body) := splitStart path
  match (parts body).reverse.dropWhile isIdle with
  | _ :: above => some (start ++ "/".intercalate (above.dropWhile isIdle).reverse)
  | [] => if start = "." then some "" else none

/-- The path of a name in a directory. -/
def join (directory name : String) : String :=
  if directory = "" || directory.toList.getLast? = some '/' then directory ++ name
  else directory ++ "/" ++ name

end TreeWalk.Path

namespace TreeWalk

/-! ### Disks

Files as the program sees them. A disk answers for each path what is found there; a file tree is a disk
once a working directory is chosen. A path is followed part by part, and every part but the last must
be a directory. -/

/-- Why a path cannot be read. -/
inductive FileFault where
  | notFound
  | notADirectory
  | isADirectory
  | nameTooLong
  | notUtf8
  | nulInName
  /-- What the system says in its own words; `missing` if it says that nothing is there. -/
  | reported (missing : Bool) (text : String)
deriving DecidableEq, Repr

namespace FileFault

def message : FileFault → String
  | notFound => "No such file or directory (os error 2)"
  | notADirectory => "Not a directory (os error 20)"
  | isADirectory => "Is a directory (os error 21)"
  | nameTooLong => "File name too long (os error 36)"
  | notUtf8 => "stream did not contain valid UTF-8"
  | nulInName => "file name contained an unexpected NUL byte"
  | reported _ text => text

/-- Whether the fault is that nothing is there. -/
def isMissing : FileFault → Bool
  | notFound => true
  | reported missing _ => missing
  | _ => false

end FileFault

/-- What is found at a path. -/
inductive FileEntry where
  | directory
  | file (content : ByteArray)
  /-- Something is there, but it cannot be read. -/
  | unreadable (fault : FileFault)

/-- What is found at each path. -/
abbrev Disk : Type := String → Except FileFault FileEntry

namespace Disk

/-- Whether anything is found at a path. -/
def contains (disk : Disk) (path : String) : Bool :=
  match disk path with
  | .ok _ => true
  | .error _ => false

def isDirectory (disk : Disk) (path : String) : Bool :=
  match disk path with
  | .ok .directory => true
  | _ => false

/-- The text of a file. -/
def read (disk : Disk) (path : String) : Except FileFault String :=
  match disk path with
  | .error fault => .error fault
  | .ok .directory => .error .isADirectory
  | .ok (.unreadable fault) => .error fault
  | .ok (.file content) =>
      match String.fromUTF8? content with
      | some text => .ok text
      | none => .error .notUtf8

end Disk

/-- A file, or a directory of named files and directories. -/
inductive FileTree where
  | file (content : ByteArray)
  | directory (entries : List (String × FileTree))

namespace FileTree

/-- The tree at the end of a row of names. -/
def find? : FileTree → List String → Option FileTree
  | tree, [] => some tree
  | .file _, _ :: _ => none
  | .directory entries, name :: names =>
      match entries.lookup name with
      | none => none
      | some tree => tree.find? names

/-- Puts a tree at the end of a row of names, with directories on the way. -/
def put (new : FileTree) : List String → FileTree → FileTree
  | [], _ => new
  | name :: names, tree =>
      let entries : List (String × FileTree) :=
        match tree with
        | .directory entries => entries
        | .file _ => []
      match entries.lookup name with
      | none => .directory (entries ++ [(name, put new names (.directory []))])
      | some old =>
          .directory (entries.map fun (n, t) => (n, if n = name then put new names old else t))

/-- The most bytes that a name may have. -/
def maxNameLength : Nat := 255

/-- The least number of bytes that is too many for a path. -/
def pathLimit : Nat := 4096

/-- Follows the parts of a path from the directory `here`, whose names are given from the inside
out. -/
def follow (root : FileTree) : List String → List String → Except FileFault FileEntry
  | here, [] =>
      match root.find? here.reverse with
      | none => .error .notFound
      | some (.directory _) => .ok .directory
      | some (.file content) => .ok (.file content)
  | here, part :: rest =>
      match root.find? here.reverse with
      | none => .error .notFound
      | some (.file _) => .error .notADirectory
      | some (.directory entries) =>
          if Path.isIdle part then follow root here rest
          else if part = ".." then follow root here.tail rest
          else if maxNameLength < part.utf8ByteSize then .error .nameTooLong
          else
            match entries.lookup part with
            | none => .error .notFound
            | some _ => follow root (part :: here) rest

/-- The disk of a file tree and a working directory, given by its names from the root. -/
def disk (root : FileTree) (working : List String) : Disk := fun path =>
  if '\x00' ∈ path.toList then .error .nulInName
  else if path = "" then .error .notFound
  else if pathLimit ≤ path.utf8ByteSize then .error .nameTooLong
  else follow root (if Path.isAbsolute path then [] else working.reverse) (Path.parts path)

end FileTree

end TreeWalk
