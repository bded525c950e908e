import StyleBundle.Command.Run

/-!
# The program

The program works on a copy of the files below the working directory and below the directories
that its arguments name, and afterwards writes back the files that have changed. Symbolic links
are left out of the copy. There is no style engine to load, so a compile ends where it needs one
unless the text comes from the cache.
-/

namespace StyleBundle.Program

/-- The directories that an invocation names, apart from the working directory. -/
def directories (i : Command.Invocation) : List String :=
  match i.task with
  | none => []
  | some (.compile config out cacheDirectory, file) =>
    [Path.parent file] ++ (config.map Path.parent).toList ++ (out.map Path.parent).toList ++
      cacheDirectory.toList
  | some (.inline, file) => [Path.parent file]
  | some (.dependencies includePaths, file) => Path.parent file :: includePaths

/-- The paths among some that are not below another of them. -/
def outermost (paths : List String) : List String :=
  let paths := paths.eraseDups
  paths.filter fun path =>
    !(paths.any fun other => other ≠ path && (Path.below? other path).isSome)

/-- The locations of the directories above a location. -/
def above (location : Location) : List Location :=
  (List.range location.length).map location.take

/-- The time that the system gives, as a stamp. -/
def stampOf (time : IO.FS.SystemTime) : Stamp :=
  .ofNanoseconds (time.sec.toNat * Stamp.billion + time.nsec.toNat)

/-- The time of changes to the copy, later than that of any file. -/
def writingTime : Stamp := .ofNanoseconds (4000000000 * Stamp.billion)

/-- The nodes at a location and below it. What cannot be read is left out. -/
partial def copyTree (location : Location) : IO (List (Location × Node)) := do
  try
    let path ← IO.FS.realPath (Disk.pathOf location)
    let data ← path.symlinkMetadata
    match data.type with
    | .file =>
      let bytes ← IO.FS.readBinFile path
      return [(location, .file bytes.toList (stampOf data.modified))]
    | .dir =>
      let entries ← path.readDir
      let nodes ← entries.toList.mapM fun entry => do
        if (← entry.path.symlinkMetadata).type matches .symlink then return []
        else copyTree (location ++ [entry.fileName])
      return (location, .directory (stampOf data.modified)) :: nodes.flatten
    | _ => return []
  catch _ => return []

/-- A copy of the files that an invocation may look at. -/
def copyDisk (home : String) (arguments : List String) : IO Disk := do
  let named :=
    match Command.Invocation.parse arguments with
    | .ok i => directories i
    | .error _ => []
  let roots := outermost (home :: named.map (Path.canonical home))
  let trees ← roots.mapM fun path => copyTree (Path.names path)
  let ancestors := (roots.flatMap fun path => above (Path.names path)).eraseDups
  let nodes := ancestors.map (fun location => (location, Node.directory (.ofNanoseconds 0)))
  return ⟨nodes ++ trees.flatten, Path.names home, writingTime⟩

/-- Writes the files that differ from what they were. -/
def writeBack (before after : Disk) : IO Unit :=
  after.files.forM fun (location, bytes) => do
    let old := match before.node? location with
      | some (.file old _) => some old
      | _ => none
    if old ≠ some bytes then
      IO.FS.createDirAll (Disk.pathOf location.dropLast)
      IO.FS.writeBinFile (Disk.pathOf location) (ByteArray.mk bytes.toArray)

/-- Runs the program with the arguments of the command line. -/
def run (arguments : List String) : IO UInt32 := do
  let home := (← IO.currentDir).toString
  let disk ← copyDisk home arguments
  let outcome := Command.run ⟨disk, none, none, none⟩ arguments
  writeBack disk outcome.session.disk
  IO.print outcome.output
  IO.eprint outcome.messages
  match outcome.ending with
  | .ok status => return status.toUInt32
  | .error failure =>
    IO.eprintln failure.message
    return 1

end StyleBundle.Program

/-- The program. -/
def main (arguments : List String) : IO UInt32 := StyleBundle.Program.run arguments
