import StyleBundle.Path

/-!
# Import targets

A target is read from a path. A target without a dot in its last segment gets the default
extension, an absolute one is taken as it is, and any other is seen from the directory of the
file that holds the statement: that directory's path is taken below a root, from whose text it
usually starts.

Stylesheets come in two dialects, told apart by their extensions; a path has a counterpart in the
other dialect.
-/

namespace StyleBundle.Import

/-- The extension of the dialect with braces, and the one that a target gets by default. -/
def bracedExtension : String := ".scss"

/-- The extension of the indented dialect. -/
def indentedExtension : String := ".sass"

/-- The text without what it ends with, if it ends with it. -/
def dropEnd? (ending s : String) : Option String :=
  (Text.dropFront? ending.toList.reverse s.toList.reverse).map fun rest =>
    String.ofList rest.reverse

/-- The path of the counterpart in the other dialect; a path in neither dialect is its own. -/
def counterpart (path : String) : String :=
  match dropEnd? bracedExtension path with
  | some stem => stem ++ indentedExtension
  | none =>
    match dropEnd? indentedExtension path with
    | some stem => stem ++ bracedExtension
    | none => path

/-- Whether the last segment of a path has a dot. -/
def hasDot (path : String) : Bool := '.' ∈ Text.lastPiece '/' path.toList

/-- The target with the extension, if its last segment has no dot. -/
def withExtension (extension target : String) : String :=
  if hasDot target then target else target ++ extension

/-- The directory's text without the first occurrence of the root's text. -/
def belowRoot (root : String) (directory : List String) : String :=
  String.ofList (Text.replaceFirst root.toList [] (Path.ofSegments directory).toList)

/-- The path from which a target is read by a file in the directory with these segments. An empty
target has the empty path. -/
def resolve (root extension : String) (directory : List String) (target : String) : String :=
  if target = "" then ""
  else
    let target := withExtension extension target
    if Path.isAbsolute target then target
    else Path.normalise (root ++ "/" ++ belowRoot root directory ++ "/" ++ target)

end StyleBundle.Import
