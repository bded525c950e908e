import StyleBundle.Cache.Entry
import StyleBundle.Digest.Sha1
import StyleBundle.Disk.Change
import StyleBundle.Sheet

/-!
# The cache

The cache keeps one entry for each source and tag, in a file below the cache directory that is
named by the digest of the source's path. An entry may be used again if it is newer than its
source and no dependency recorded in it is gone or newer.
-/

namespace StyleBundle.Cache

/-- What the name of an entry's file ends with. -/
def entrySuffix : String := ".json"

/-- The name of the file for the entries of a source. -/
def fileName (path : String) : String :=
  Digest.Sha1.hexDigest (Text.Utf8.encode path.toList) ++ entrySuffix

/-- The path of the entry of a source under a tag. -/
def entryPath (directory path tag : String) : String :=
  Path.child (Path.child directory tag) (fileName path)

variable [Limits] [Entry.Reader]

/-- Reads the entry of a source under a tag. -/
def readEntry (d : Disk) (directory path tag : String) : Except Failure Entry :=
  let file := entryPath directory path tag
  match d.readText file with
  | .error (.disk (.refused cause p)) => .error (.cache (.unreadable file (.refused cause p)))
  | .error failure => .error failure
  | .ok text =>
    match Entry.Reader.read text with
    | .error violations => .error (.cache (.invalid file violations))
    | .ok entry =>
      if entry.version = formatVersion then .ok entry
      else .error (.cache (.version file entry.version))

/-- The entry that a stylesheet makes. -/
def entryOf (sheet : Sheet) (sourceMap : Option String) (tag : String) : Entry :=
  ⟨formatVersion, sheet.path, tag, sheet.contents.getD "", sourceMap, sheet.dependencies⟩

/-- Writes an entry: whether that succeeds, and the disk behind it. The directories that were made
for an entry stay where it cannot be written. -/
def attemptEntry (d : Disk) (directory : String) (entry : Entry) : Except Failure Unit × Disk :=
  let file := entryPath directory entry.path entry.tag
  let made := d.attemptDirectories (Path.parent file)
  match made.result.bind (·.writeText file entry.print) with
  | .ok d => (.ok (), d)
  | .error (.refused cause p) =>
    (.error (.cache (.unwritable file (.refused cause p))), made.disk)
  | .error fault => (.error (.disk fault), made.disk)

/-- The disk with an entry written, if it can be written. -/
def writeEntry (d : Disk) (directory : String) (entry : Entry) : Except Failure Disk :=
  match attemptEntry d directory entry with
  | (.ok (), d) => .ok d
  | (.error failure, _) => .error failure

/-- Removes all entries, or those under one tag. -/
def clear (d : Disk) (directory : String) (tag : Option String) : Except Failure Disk :=
  let target := (tag.map (Path.child directory)).getD (Path.tidy directory)
  match d.probe target with
  | .error fault => .error (.disk fault)
  | .ok none => .ok d
  | .ok (some _) =>
    match d.removeTree target with
    | .ok d => .ok d
    | .error fault => .error (.disk fault)

/-- Whether a file is there and newer than a source that is there too. -/
def isNewer (d : Disk) (file source : String) : Except Disk.Fault Bool :=
  match d.probe file with
  | .error fault => .error fault
  | .ok none => .ok false
  | .ok (some written) =>
    match d.probe source with
    | .error fault => .error fault
    | .ok none => .ok false
    | .ok (some changed) => .ok (written.stamp.isAfter changed.stamp)

/-- Whether a dependency is still there and has not changed since a time. -/
def isUnchanged (d : Disk) (since : Stamp) (dependency : String) : Except Disk.Fault Bool :=
  match d.probe (Path.tidy dependency) with
  | .error fault => .error fault
  | .ok none => .ok false
  | .ok (some node) => .ok !(node.stamp.isAfter since)

/-- Whether all dependencies are still there and have not changed since a time. The first one that
is not ends the search. -/
def areUnchanged (d : Disk) (since : Stamp) : List String → Except Disk.Fault Bool
  | [] => .ok true
  | dependency :: rest =>
    match isUnchanged d since dependency with
    | .ok true => areUnchanged d since rest
    | outcome => outcome

/-- The part of the program that logs unusable entries. -/
def logSource : String := "sassplugin.cache.static_cache"

/-- The record of an entry that cannot be used. -/
def unusableRecord (fault : CacheFault) : LogRecord :=
  ⟨.debug, logSource, s!"Ignoring unusable cache entry: {fault.message}"⟩

/-- Whether the entry of a source under a tag may be used again, and what the check logs. -/
def isValid (d : Disk) (directory path tag : String) : Except Failure (Bool × List LogRecord) :=
  let file := entryPath directory path tag
  match isNewer d file path with
  | .error fault => .error (.disk fault)
  | .ok false => .ok (false, [])
  | .ok true =>
    match readEntry d directory path tag with
    | .error (.cache fault) => .ok (false, [unusableRecord fault])
    | .error failure => .error failure
    | .ok entry =>
      match d.find? file with
      | none => .ok (false, [])
      | some node =>
        match areUnchanged d node.stamp entry.dependencies with
        | .ok unchanged => .ok (unchanged, [])
        | .error fault => .error (.disk fault)

/-- The stylesheet with its text and map taken from an entry. -/
def restored (sheet : Sheet) (entry : Entry) : Sheet :=
  { sheet with
    contents := some entry.contents
    sourceMap := entry.sourceMap
    cached := true }

/-- The stylesheet restored from its entry if the project uses a cache and the entry may be used,
whether it was, and what that logs. -/
def restore (d : Disk) (p : Project) (sheet : Sheet) (tag : String) :
    Except Failure (Bool × Sheet × List LogRecord) :=
  match p.usesCache, p.cache with
  | true, some directory =>
    match isValid d directory sheet.path tag with
    | .error failure => .error failure
    | .ok (false, records) => .ok (false, sheet, records)
    | .ok (true, records) =>
      match readEntry d directory sheet.path tag with
      | .error failure => .error failure
      | .ok entry => .ok (true, restored sheet entry, records)
  | _, _ => .ok (false, sheet, [])

end StyleBundle.Cache
