import StyleBundle.Dependency.Candidate
import StyleBundle.Disk.Reading
import StyleBundle.Import.Hook
import StyleBundle.Import.Statement

/-!
# Dependencies

The dependencies of a stylesheet are the files that its imports reach, followed the way a compiler
looks them up: from the directory of the importing file, then from the search paths. The walk goes
depth first and keeps the order of discovery. A file is opened when it is found and never again,
so the walk ends on cyclic imports too. It goes down into the imports by calls, and where these are
bounded a chain of imports may be too long for it.
-/

namespace StyleBundle.Dependency

/-- What a walk is given besides the disk. -/
structure Search where
  /-- Directories that are searched behind the importing file's own, in order. -/
  paths : List String
  /-- Whether names behind an underscore are tried. -/
  partials : Bool
  /-- The hook that may redirect a target. -/
  hook : Option Import.Hook
  /-- The known extensions, without their dots. -/
  extensions : List String

/-- An import that is still to be followed. -/
structure Reference where
  /-- The file that holds the statement. -/
  origin : String
  /-- The target of the statement. -/
  target : String
  deriving DecidableEq, Repr

/-- The imports of a text that stands in a file. -/
def references (origin text : String) : List Reference :=
  (Import.statements text).map fun statement => ⟨origin, statement.target⟩

/-- Whether a character is a letter in either case. The long s is a form of the letter s. -/
def isForm (letter c : Char) : Bool :=
  c = letter || c = letter.toUpper || (letter = 's' && c = 'ſ')

/-- What follows a word at the front, in either case. -/
def dropWord? : (word s : List Char) → Option (List Char)
  | [], s => some s
  | _ :: _, [] => none
  | letter :: word, c :: rest => if isForm letter c then dropWord? word rest else none

/-- Whether a target is an address: a scheme or two slashes, or the function for addresses. -/
def isExternal (target : String) : Bool :=
  let s := target.toList
  (dropWord? "//".toList s).isSome || (dropWord? "http://".toList s).isSome ||
    (dropWord? "https://".toList s).isSome || (dropWord? "url(".toList s).isSome

/-- What a hook makes of a target: another target, the same, or nothing if it is passed on as an
address. -/
def redirect (target : String) : Option Import.Target → Option String
  | none => some target
  | some answer =>
    if answer.file.getD "" ≠ "" then answer.file
    else if answer.url.getD "" ≠ "" then none
    else some target

/-- The target that is looked up for a reference, if any. -/
def lookupTarget (d : Disk) (s : Search) (asked : Nat) (r : Reference) :
    Except Failure (Option String) :=
  if isExternal r.target then .ok none
  else
    match s.hook with
    | none => .ok (some r.target)
    | some hook =>
      match hook.answer asked d r.target r.origin with
      | .ok answer => .ok (redirect r.target answer)
      | .error failure => .error failure

/-- The paths of all files, with one leading slash or two. A lookup finds no others. -/
def filePaths (d : Disk) : List String :=
  d.files.flatMap fun (location, _) => [Disk.pathOf location, "/" ++ Disk.pathOf location]

/-- The paths of files that are not found yet. -/
def unfound (d : Disk) (found : List String) : List String :=
  (filePaths d).filter (· ∉ found)

theorem unfound_lt {d : Disk} {found : List String} {path : String}
    (hpath : path ∈ filePaths d) (hnew : path ∉ found) :
    (unfound d (found ++ [path])).length < (unfound d found).length := by
  have hsub : unfound d (found ++ [path]) = (unfound d found).filter (· ≠ path) := by
    simp only [unfound, List.filter_filter]
    congr 1
    funext p
    by_cases hp : p = path <;> simp [hp]
  rw [hsub]
  refine List.length_filter_lt_length_iff_exists.2 ⟨path, ?_, by simp⟩
  simp [unfound, hpath, hnew]

variable [Limits]

/-- The file to which a target leads from the file that imports it. -/
def resolve (d : Disk) (s : Search) (origin target : String) : Option String :=
  lookup d (Path.directory origin :: s.paths) (candidates s.partials s.extensions target)

/-- The file to which a reference leads, if any. -/
def follow (d : Disk) (s : Search) (asked : Nat) (r : Reference) :
    Except Failure (Option String) :=
  match lookupTarget d s asked r with
  | .ok target => .ok (target.bind (resolve d s r.origin))
  | .error failure => .error failure

/-- Follows the pending references in order, those of a new file before the rest, however deep they
lead. `asked` counts the references followed so far, and `found` holds the files found so far. -/
def walk (d : Disk) (s : Search) (entry : String) (asked : Nat) (pending : List Reference)
    (found : List String) : Except Failure (List String) :=
  match pending with
  | [] => .ok found
  | r :: rest =>
    match follow d s asked r with
    | .error failure => .error failure
    | .ok none => walk d s entry (asked + 1) rest found
    | .ok (some path) =>
      if h : path ∈ filePaths d ∧ path ∉ found ∧ path ≠ entry then
        have := unfound_lt h.1 h.2.1
        match d.readText path with
        | .ok text =>
          walk d s entry (asked + 1) (references path text ++ rest) (found ++ [path])
        | .error (.disk (.refused ..)) => walk d s entry (asked + 1) rest (found ++ [path])
        | .error failure => .error failure
      else walk d s entry (asked + 1) rest found
termination_by ((unfound d found).length, pending.length)

/-- The wording for imports that lead too deep. -/
def tooDeepMessage : String := "maximum recursion depth exceeded"

/-- The references as the ones of a file that so many imports lead to. -/
def atDepth (depth : Nat) (references : List Reference) : List (Nat × Reference) :=
  references.map fun r => (depth, r)

/-- Follows the pending references in order, each with the number of imports that lead to the file
that holds it. The walk ends at a file that more than `bound` imports lead to. -/
def walkWithin (bound : Option Nat) (d : Disk) (s : Search) (entry : String) (asked : Nat)
    (pending : List (Nat × Reference)) (found : List String) : Except Failure (List String) :=
  match pending with
  | [] => .ok found
  | (depth, r) :: rest =>
    match follow d s asked r with
    | .error failure => .error failure
    | .ok none => walkWithin bound d s entry (asked + 1) rest found
    | .ok (some path) =>
      if h : path ∈ filePaths d ∧ path ∉ found ∧ path ≠ entry then
        have := unfound_lt h.1 h.2.1
        match d.readText path with
        | .ok text =>
          if Within bound (depth + 1) then
            walkWithin bound d s entry (asked + 1)
              (atDepth (depth + 1) (references path text) ++ rest) (found ++ [path])
          else .error (.raised tooDeepMessage)
        | .error (.disk (.refused ..)) =>
          walkWithin bound d s entry (asked + 1) rest (found ++ [path])
        | .error failure => .error failure
      else walkWithin bound d s entry (asked + 1) rest found
termination_by ((unfound d found).length, pending.length)

/-- The files that a text reaches when it stands in the entry file, in order of discovery and
without the entry. -/
def dependencies (d : Disk) (s : Search) (entry text : String) :
    Except Failure (List String) :=
  walkWithin Limits.importDepth d s entry 0 (atDepth 0 (references entry text)) []

end StyleBundle.Dependency
