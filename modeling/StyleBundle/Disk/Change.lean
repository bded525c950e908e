import StyleBundle.Disk.Basic

/-!
# Changing the disk

Every change is stamped with the disk's clock, which then moves on, so that of two changes the
later one has the later stamp. Adding or removing a name also stamps the directory that holds it.
-/

namespace StyleBundle.Disk

/-- A disk with an empty root, entered at a location that need not exist yet. -/
def empty (home : Location) (clock : Stamp) : Disk := ⟨[([], .directory clock)], home, clock⟩

/-- The disk one step later. -/
def tick (d : Disk) : Disk := { d with clock := d.clock.next }

/-- The disk with a node set. -/
def set (d : Disk) (location : Location) (node : Node) : Disk :=
  { d with nodes := d.nodes.put location node }

/-- The directory that holds a location, stamped now. -/
def touchParent (d : Disk) (location : Location) : Disk :=
  if location = [] then d else d.set location.dropLast (.directory d.clock)

/-- A node set at a location, with the directory stamped if the name is new there. -/
def place (d : Disk) (location : Location) (node : Node) : Disk :=
  if (d.node? location).isSome then (d.set location node).tick
  else ((d.touchParent location).set location node).tick

variable [Limits]

/-- Writes the bytes of a file, which is made if it does not exist. -/
def writeBytes (d : Disk) (path : String) (bytes : List UInt8) : Except Fault Disk :=
  match d.locate path with
  | .error fault => .error fault
  | .ok location =>
    match d.node? location with
    | some (.directory _) => .error (.refused .isDirectory path)
    | _ => .ok (d.place location (.file bytes d.clock))

/-- Writes a text in UTF-8. -/
def writeText (d : Disk) (path text : String) : Except Fault Disk :=
  d.writeBytes path (Text.Utf8.encode text.toList)

/-- Makes one directory. -/
def makeDirectory (d : Disk) (path : String) : Except Fault Disk :=
  match d.locate path with
  | .error (.nul _) => .error (.nul "mkdir")
  | .error fault => .error fault
  | .ok location =>
    if (d.node? location).isSome then .error (.refused .taken path)
    else .ok (d.place location (.directory d.clock))

/-- A refused directory is no fault where one stands already. -/
def unlessDirectory (d : Disk) (path : String) (fault : Fault) : Except Fault Disk :=
  if d.isDirectory path then .ok d else .error fault

/-- How an operation went that may fail part of the way. -/
structure Attempt where
  /-- The fault that ended it, if one did. -/
  fault : Option Fault
  /-- The disk behind it. What was done before the fault stays done. -/
  disk : Disk

/-- An operation that changes nothing when it fails, as an attempt. -/
def attempt (d : Disk) : Except Fault Disk → Attempt
  | .ok d => ⟨none, d⟩
  | .error fault => ⟨some fault, d⟩

/-- The disk behind an attempt, if it has not failed. -/
def Attempt.result (a : Attempt) : Except Fault Disk :=
  match a.fault with
  | none => .ok a.disk
  | some fault => .error fault

/-- Makes a directory and those above it that are missing, at most `depth` of them, the upper ones
first. -/
def attemptDirectoriesWithin (d : Disk) (path : String) : (depth : Nat) → Attempt
  | 0 => d.attempt (d.makeDirectory path)
  | depth + 1 =>
    match d.makeDirectory path with
    | .ok d => ⟨none, d⟩
    | .error (.refused .missing p) =>
      if Path.parent path = path then ⟨some (.refused .missing p), d⟩
      else
        match d.attemptDirectoriesWithin (Path.parent path) depth with
        | ⟨some fault, d⟩ => ⟨some fault, d⟩
        | ⟨none, d⟩ =>
          match d.makeDirectory path with
          | .ok d => ⟨none, d⟩
          | .error (.refused .missing p) => ⟨some (.refused .missing p), d⟩
          | .error fault => d.attempt (d.unlessDirectory path fault)
    | .error fault => d.attempt (d.unlessDirectory path fault)

/-- Makes a directory and those above it that are missing; one that exists is kept. -/
def attemptDirectories (d : Disk) (path : String) : Attempt :=
  d.attemptDirectoriesWithin path ((Path.names path).length + 1)

/-- The disk with at most `depth` directories of a path made, if all of them can be made. -/
def makeDirectoriesWithin (d : Disk) (path : String) (depth : Nat) : Except Fault Disk :=
  (d.attemptDirectoriesWithin path depth).result

/-- The disk with the directories of a path made, if all of them can be made. -/
def makeDirectories (d : Disk) (path : String) : Except Fault Disk :=
  (d.attemptDirectories path).result

/-- The disk without a node and all below it. -/
def erase (d : Disk) (location : Location) : Disk :=
  { d.touchParent location with
    nodes := (d.touchParent location).nodes.filter fun (l, _) => !location.isPrefixOf l }.tick

/-- Removes a directory with all that it holds. -/
def removeTree (d : Disk) (path : String) : Except Fault Disk :=
  match d.find path, d.locate path with
  | .error fault, _ | _, .error fault => .error fault
  | .ok (.file ..), _ => .error (.notTree path)
  | .ok (.directory _), .ok location => .ok (d.erase location)

/-- The disk with the time of a node set. -/
def restamp (d : Disk) (path : String) (stamp : Stamp) : Except Fault Disk :=
  match d.find path, d.locate path with
  | .error fault, _ | _, .error fault => .error fault
  | .ok (.directory _), .ok location => .ok (d.set location (.directory stamp))
  | .ok (.file bytes _), .ok location => .ok (d.set location (.file bytes stamp))

/-- The disk entered at another directory. -/
def enter (d : Disk) (path : String) : Except Fault Disk :=
  match d.find path, d.locate path with
  | .error fault, _ | _, .error fault => .error fault
  | .ok (.file ..), _ => .error (.refused .notDirectory path)
  | .ok (.directory _), .ok location => .ok { d with home := location }

end StyleBundle.Disk
