import WordMachine.Roster
import WordMachine.SourceReader
import WordMachine.Text.Lines
import WordMachine.Text.Utf8

/-!
# Files

A file system holds files and directories by their paths.  A name leads to a
path: its components are separated by `/`, where `.` stays and `..` goes up,
and it starts at the working directory, or at the root if it starts with `/`.
Every component but the last has to be a directory, and no component may have
more than 255 bytes.  The working directory, the directories above it and the
root always exist.

There are no links in the model: names that lead to different paths lead to
different files.  Names are texts, so none of them holds a lone surrogate.
-/

namespace WordMachine

/-- A directory that always exists. -/
inductive Anchor where
  /-- The directory that many levels above the working directory. -/
  | ancestor (levels : Nat)
  | root
deriving DecidableEq

/-- A path: names to follow from a directory that always exists. -/
structure Path where
  anchor : Anchor
  names : List String
deriving DecidableEq

namespace Path

/-- The path of a file below the working directory. -/
def working (names : List String) : Path := ⟨.ancestor 0, names⟩

/-- The path of the directory above. -/
def parent (path : Path) : Path :=
  match path.names, path.anchor with
  | [], .ancestor levels => ⟨.ancestor (levels + 1), []⟩
  | [], .root => ⟨.root, []⟩
  | names, anchor => ⟨anchor, names.dropLast⟩

/-- The path of a name in a directory. -/
def child (path : Path) (name : String) : Path :=
  { path with names := path.names ++ [name] }

end Path

/-- What a path leads to. -/
inductive Node where
  | file (content : List UInt8)
  | directory
deriving DecidableEq

/-- Files and directories by their paths. -/
structure FileSystem where
  nodes : Roster Path Node

namespace FileSystem

/-- The file system without any file. -/
def empty : FileSystem := ⟨Roster.empty⟩

/-- What stands at a path. -/
def node? (files : FileSystem) (path : Path) : Option Node :=
  if path.names = [] then some .directory else files.nodes.get? path

/-- The content of the file at a path, if there is a file. -/
def content? (files : FileSystem) (path : Path) : Option (List UInt8) :=
  match files.node? path with
  | some (.file content) => some content
  | _ => none

/-- Put a node at a path. -/
def put (files : FileSystem) (path : Path) (node : Node) : FileSystem :=
  ⟨files.nodes.insert path node⟩

/-- Put a directory at a path unless something stands there. -/
def ensureDirectory (files : FileSystem) (path : Path) : FileSystem :=
  match files.node? path with
  | some _ => files
  | none => files.put path .directory

/-- Put a node at a path and directories at the paths above it. -/
def install (files : FileSystem) (path : Path) (node : Node) : FileSystem :=
  let above := (List.range path.names.length).map
    (fun count => { path with names := path.names.take count })
  (above.foldl ensureDirectory files).put path node

/-! ## Names -/

/-- Whether the character separates components. -/
def isSlash (character : Char) : Bool := character == '/'

/-- The components of a name. -/
def components (name : String) : List String :=
  Text.runs isSlash name.toList

/-- Whether a name ends in a separator. -/
def endsInSlash (name : String) : Bool :=
  name.toList.getLast? == some '/'

/-- The path at which a name starts. -/
def startOf (name : String) : Path :=
  if name.toList.head? = some '/' then ⟨.root, []⟩ else .working []

/-- The largest number of bytes in a component. -/
def maxComponentBytes : Nat := 255

/-- The number of bytes from which on a name is too long. -/
def nameLimit : Nat := 4096

/-- Whether a component has too many bytes. -/
def isTooLong (component : String) : Bool :=
  maxComponentBytes < (Text.Utf8.encode component).length

/-- Refuse names that are empty or too long as a whole. -/
def checkName (name : String) : Except FileFault Unit :=
  if name = "" then .error .noSuchFile
  else if nameLimit ≤ (Text.Utf8.encode name).length then .error .nameTooLong
  else .ok ()

/-- Refuse a path that is not a directory. -/
def checkDirectory (files : FileSystem) (path : Path) : Except FileFault Unit :=
  match files.node? path with
  | none => .error .noSuchFile
  | some (.file _) => .error .notADirectory
  | some .directory => .ok ()

/-- Go from a directory to one of its components. -/
def step (files : FileSystem) (path : Path) (component : String) : Except FileFault Path := do
  files.checkDirectory path
  if component = "." then .ok path
  else if component = ".." then .ok path.parent
  else if isTooLong component then .error .nameTooLong
  else
    match files.node? (path.child component) with
    | none => .error .noSuchFile
    | some _ => .ok (path.child component)

/-- Go from a path along components. -/
def walk (files : FileSystem) (path : Path) : List String → Except FileFault Path
  | [] => .ok path
  | component :: rest =>
      match files.step path component with
      | .error fault => .error fault
      | .ok next => walk files next rest

/-! ## Reading and writing -/

/-- The content of the file with the given name. -/
def read (files : FileSystem) (name : String) : Except FileFault (List UInt8) := do
  checkName name
  let path ← files.walk (startOf name) (components name)
  match files.node? path with
  | none => .error .noSuchFile
  | some .directory => .error .isADirectory
  | some (.file content) =>
      if endsInSlash name then .error .notADirectory else .ok content

/-- The reader of the files. -/
def reader (files : FileSystem) : SourceReader :=
  .ofContents files.read

/-- The path of a file that is to be written in a directory. -/
def childToWrite (files : FileSystem) (directory : Path) (name component : String) :
    Except FileFault Path := do
  files.checkDirectory directory
  if component = "." ∨ component = ".." ∨ endsInSlash name then .error .isADirectory
  else if isTooLong component then .error .nameTooLong
  else
    match files.node? (directory.child component) with
    | some .directory => .error .isADirectory
    | _ => .ok (directory.child component)

/-- The path at which a file of the given name is written. -/
def pathToWrite (files : FileSystem) (name : String) : Except FileFault Path := do
  checkName name
  match (components name).getLast? with
  | none => .error .isADirectory
  | some component =>
      let directory ← files.walk (startOf name) (components name).dropLast
      files.childToWrite directory name component

/-- Write a file at a path. -/
def writeFile (files : FileSystem) (path : Path) (content : List UInt8) : FileSystem :=
  files.put path (.file content)

end FileSystem

end WordMachine
