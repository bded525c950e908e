import StyleBundle.Disk.Basic
import StyleBundle.Import.Target

/-!
# Candidates

An imported name stands for several files: itself and, where partials are looked for, the same
name behind an underscore; and each with every known extension, unless it ends in one. A lookup
takes the directories in order and in each the candidates in order.
-/

namespace StyleBundle.Dependency

/-- The names under which a file may stand. -/
def nameForms (partials : Bool) (name : String) : List String :=
  if partials ∧ name.toList.head? ≠ some '_' then [name, "_" ++ name] else [name]

/-- Whether a name ends in one of the extensions. -/
def hasExtension (extensions : List String) (name : String) : Bool :=
  extensions.any fun extension => (Import.dropEnd? ("." ++ extension) name).isSome

/-- The paths that are tried for a target in each directory. -/
def candidates (partials : Bool) (extensions : List String) (target : String) : List String :=
  let (head, name) := Path.splitLast target
  (nameForms partials name).flatMap fun form =>
    if hasExtension extensions name then [Path.join head form]
    else extensions.map fun extension => Path.join head (form ++ "." ++ extension)

variable [Limits]

/-- The first candidate that is a file, searched directory by directory, from the root. -/
def lookup (d : Disk) (directories candidates : List String) : Option String :=
  directories.findSome? fun directory =>
    candidates.findSome? fun candidate =>
      let path := Path.normalise (Path.join directory candidate)
      if d.isFile path then some (d.absolute path) else none

end StyleBundle.Dependency
