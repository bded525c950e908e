import StyleBundle.Disk.Stamp
import StyleBundle.Limits
import StyleBundle.Path
import StyleBundle.Table
import StyleBundle.Text.Quoted
import StyleBundle.Text.Utf8

/-!
# The disk

The disk is a finite tree of directories and files. Every node is found under its location, the
names that lead to it from the root. Finding a path walks its segments one by one, so that a
segment behind a missing directory or behind a file fails the way the walk meets it. A path of more
bytes than the system takes is not walked at all.
-/

namespace StyleBundle

/-- The names that lead from the root to a node. -/
abbrev Location := List String

/-- A directory or a file. -/
inductive Node
  /-- A directory and the time at which a name was last added or removed. -/
  | directory (changed : Stamp)
  /-- The bytes of a file and the time at which they were written. -/
  | file (bytes : List UInt8) (changed : Stamp)
  deriving DecidableEq

namespace Node

/-- When the node last changed. -/
def stamp : Node → Stamp
  | .directory changed => changed
  | .file _ changed => changed

/-- Whether the node is a file. -/
def isFile : Node → Bool
  | .file .. => true
  | .directory _ => false

end Node

/-- The tree of files, the working directory, and the time of the next change. -/
structure Disk where
  /-- The nodes by location. -/
  nodes : Table Location Node
  /-- The directory at which relative paths start. -/
  home : Location
  /-- The time that the next change is stamped with. -/
  clock : Stamp

namespace Disk

/-- Why the disk refuses an operation on a path. -/
inductive Cause
  /-- Nothing stands there. -/
  | missing
  /-- A segment before the last leads to a file. -/
  | notDirectory
  /-- A directory stands where a file is needed. -/
  | isDirectory
  /-- Something stands there already. -/
  | taken
  /-- A name takes more than 255 bytes, or a path more than the system takes. -/
  | longName
  deriving DecidableEq, Repr

/-- The number that the system gives to a cause. -/
def Cause.number : Cause → Nat
  | .missing => 2
  | .taken => 17
  | .notDirectory => 20
  | .isDirectory => 21
  | .longName => 36

/-- The wording of a cause. -/
def Cause.message : Cause → String
  | .missing => "No such file or directory"
  | .taken => "File exists"
  | .notDirectory => "Not a directory"
  | .isDirectory => "Is a directory"
  | .longName => "File name too long"

/-- A refused operation. -/
inductive Fault
  /-- The disk refuses to work on the path. -/
  | refused (cause : Cause) (path : String)
  /-- What is to be removed with all that it holds is no directory. -/
  | notTree (path : String)
  /-- The path holds a NUL, which no disk takes; some operations name themselves. -/
  | nul (operation : Option String)
  deriving DecidableEq, Repr

/-- The wording of a refused operation. -/
def Fault.message : Fault → String
  | .refused cause path => s!"[Errno {cause.number}] {cause.message}: {Text.quoted path}"
  | .notTree path =>
    s!"[Errno {Cause.notDirectory.number}] {Cause.notDirectory.message}: " ++
      s!"PosixPath({Text.quoted path})"
  | .nul none => "embedded null byte"
  | .nul (some operation) => s!"{operation}: embedded null character in path"

/-- The node at a location; the root is always a directory. -/
def node? (d : Disk) (location : Location) : Option Node := Table.get? location d.nodes

/-- The most bytes of a name. -/
def maxNameBytes : Nat := 255

/-- Whether a name takes more bytes than a name may. -/
def isLongName (name : String) : Bool :=
  maxNameBytes < (Text.Utf8.encode name.toList).length

/-- The location to which the segments lead from a given one. The last segment need not exist, but
what it stands in has to be a directory. -/
def walk (d : Disk) : Location → List String → Except Cause Location
  | here, [] => .ok here
  | here, segment :: rest =>
    match d.node? here with
    | none => .error .missing
    | some (.file ..) => .error .notDirectory
    | some (.directory _) =>
      if Path.isIdle segment then d.walk here rest
      else if segment = ".." then d.walk here.dropLast rest
      else if isLongName segment then .error .longName
      else d.walk (here ++ [segment]) rest

variable [Limits]

/-- Whether a path takes no more bytes than the system takes. -/
def Fits (path : String) : Prop := Within Limits.pathBytes (Text.Utf8.encode path.toList).length

instance (path : String) : Decidable (Fits path) :=
  inferInstanceAs (Decidable (Within Limits.pathBytes (Text.Utf8.encode path.toList).length))

/-- The location that a path leads to. -/
@[irreducible] def locate (d : Disk) (path : String) : Except Fault Location :=
  if '\x00' ∈ path.toList then .error (.nul none)
  else if path = "" then .error (.refused .missing path)
  else if Fits path then
    match d.walk (if Path.isAbsolute path then [] else d.home) (Path.segments path) with
    | .ok location => .ok location
    | .error cause => .error (.refused cause path)
  else .error (.refused .longName path)

/-- The node that a path leads to. -/
def find (d : Disk) (path : String) : Except Fault Node :=
  match d.locate path with
  | .error fault => .error fault
  | .ok location =>
    match d.node? location with
    | none => .error (.refused .missing path)
    | some node => .ok node

/-- The node that a path leads to, if it leads to one. -/
def find? (d : Disk) (path : String) : Option Node := (d.find path).toOption

/-- Whether a path leads to anything. -/
def exists? (d : Disk) (path : String) : Bool := (d.find? path).isSome

/-- Whether a path leads to a file. -/
def isFile (d : Disk) (path : String) : Bool := (d.find? path).any Node.isFile

/-- Whether a path leads to a directory. -/
def isDirectory (d : Disk) (path : String) : Bool := (d.find? path).any (!·.isFile)

/-- The node that a path leads to, if it leads to one, from an operation that tells a path without
a node from one that cannot be: a name or a path that is too long is refused. -/
def probe (d : Disk) (path : String) : Except Fault (Option Node) :=
  match d.find path with
  | .ok node => .ok (some node)
  | .error (.refused .longName p) => .error (.refused .longName p)
  | .error _ => .ok none

/-- The bytes of the file that a path leads to. -/
def readBytes (d : Disk) (path : String) : Except Fault (List UInt8) :=
  match d.find path with
  | .error fault => .error fault
  | .ok (.directory _) => .error (.refused .isDirectory path)
  | .ok (.file bytes _) => .ok bytes

/-- The path of a location. -/
def pathOf (location : Location) : String := "/" ++ Path.ofSegments location

/-- The working directory as a path. -/
def homePath (d : Disk) : String := pathOf d.home

/-- The path from the root, seen from the working directory. -/
def absolute (d : Disk) (path : String) : String := Path.absolute d.homePath path

/-- The path as the disk would spell it. A name with a NUL is refused. -/
def resolve (d : Disk) (path : String) : Except Fault String :=
  if '\x00' ∈ path.toList then .error (.nul "lstat")
  else .ok (Path.canonical d.homePath path)

/-- The files with their locations. -/
def files (d : Disk) : List (Location × List UInt8) :=
  d.nodes.filterMap fun (location, node) =>
    match node with
    | .file bytes _ => some (location, bytes)
    | .directory _ => none

end Disk

end StyleBundle
