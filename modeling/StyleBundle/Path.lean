import StyleBundle.Text.Search

/-!
# Paths

Paths are texts with slashes. Most operations are lexical and never look at the disk: splitting
at the last slash, joining, and normalising, which removes empty and `.` segments and lets `..`
take the segment before it. A tidy path has lost its empty and `.` segments only.

Exactly two leading slashes are kept as two; any other number of them is one.
-/

namespace StyleBundle.Path

/-- The segments between the slashes. -/
def segments (path : String) : List String := (Text.split '/' path.toList).map String.ofList

/-- The segments joined by slashes. -/
def ofSegments (segments : List String) : String :=
  String.ofList (Text.join '/' (segments.map String.toList))

/-- Whether a path starts at the root. -/
def isAbsolute (path : String) : Bool := path.toList.head? == some '/'

/-- The slashes that mark the root: none, one, or exactly two. -/
def root (path : String) : String :=
  match path.toList with
  | '/' :: '/' :: '/' :: _ => "/"
  | '/' :: '/' :: _ => "//"
  | '/' :: _ => "/"
  | _ => ""

/-- A segment that names the directory it stands in. -/
def isIdle (segment : String) : Bool := segment == "" || segment == "."

/-- One step of normalising: `..` takes the segment before it, stays where there is none in a
relative path, and is lost at the root. `done` holds the segments so far, last first. -/
def normaliseStep (absolute : Bool) (done : List String) (segment : String) : List String :=
  if isIdle segment then done
  else if segment = ".." then
    match done with
    | [] => if absolute then [] else [".."]
    | ".." :: _ => ".." :: done
    | _ :: rest => rest
  else segment :: done

/-- The segments of a normalised path. -/
def normaliseSegments (absolute : Bool) (segments : List String) : List String :=
  (segments.foldl (normaliseStep absolute) []).reverse

/-- A path put together from its root and its segments; the empty relative path is `.`. -/
def assemble (root : String) (segments : List String) : String :=
  if root = "" ∧ segments = [] then "." else root ++ ofSegments segments

/-- The path without empty, `.` and resolvable `..` segments. -/
def normalise (path : String) : String :=
  assemble (root path) (normaliseSegments (isAbsolute path) (segments path))

/-- The second path seen from the first: an absolute one stays what it is. -/
def join (base path : String) : String :=
  if isAbsolute path then path
  else if base = "" ∨ base.toList.getLast? = some '/' then base ++ path
  else base ++ "/" ++ path

/-- The path without the slashes at its end. -/
def dropEndSlashes (path : String) : String :=
  String.ofList (path.toList.reverse.dropWhile (· = '/')).reverse

/-- What stands before the last slash and what stands behind it. Slashes at the end of the first
part are dropped, unless it holds nothing else. -/
def splitLast (path : String) : String × String :=
  let s := path.toList
  let behind := (s.reverse.takeWhile (· ≠ '/')).reverse
  let before := s.take (s.length - behind.length)
  let head := if before.all (· = '/') then String.ofList before
    else dropEndSlashes (String.ofList before)
  (head, String.ofList behind)

/-- The directory part of a path. -/
def directory (path : String) : String := (splitLast path).1

/-- The path from the root, seen from the working directory `base`, normalised. -/
def absolute (base path : String) : String := normalise (join base path)

/-- The path from the root as the disk would spell it: absolute, with one leading slash. -/
def canonical (base path : String) : String :=
  let full := absolute base path
  if root full = "//" then String.ofList (full.toList.drop 1) else full

/-! ## Tidy paths -/

/-- The segments that name something. -/
def names (path : String) : List String := (segments path).filter (!isIdle ·)

/-- The path without empty and `.` segments. -/
def tidy (path : String) : String := assemble (root path) (names path)

/-- A tidy path below another; an absolute one replaces it. -/
def child (base path : String) : String :=
  if isAbsolute path then tidy path else assemble (root base) (names base ++ names path)

/-- The tidy path without its last segment. The root and `.` are their own parents. -/
def parent (path : String) : String := assemble (root path) (names path).dropLast

/-- The last segment, empty for the root and for `.`. -/
def fileName (path : String) : String := (names path).getLast?.getD ""

/-- The last dot of the file name and what follows it, unless the dot comes first or last. -/
def suffix (path : String) : String :=
  let s := (fileName path).toList
  let behind := (s.reverse.takeWhile (· ≠ '.')).reverse
  if behind.length + 1 < s.length ∧ behind ≠ [] then String.ofList ('.' :: behind) else ""

/-- The segments of a tidy path below a directory, if it is below it or the same. -/
def below? (base path : String) : Option (List String) :=
  if root base = root path ∧ (names base).isPrefixOf (names path) then
    some ((names path).drop (names base).length)
  else none

end StyleBundle.Path
