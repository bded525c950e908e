import StyleBundle.Disk.Basic
import StyleBundle.Import.Target

/-!
# Overrides

An override such as `.dark.scss` stands for files that take the place of others: a path that ends
in its last extension is remapped to the path that ends in the whole override, if there is such a
file. The first override that applies wins, and a path that ends in an override is left to the
others.
-/

namespace StyleBundle.Import

/-- An override as it is compared, with a dot in front. -/
def dotted (override : String) : String :=
  if override.toList.head? = some '.' then override else "." ++ override

/-- The last dot of an override and what follows it. -/
def lastExtension (override : String) : String :=
  "." ++ String.ofList (Text.lastPiece '.' override.toList)

variable [Limits]

/-- The file that one override puts in the place of a path. -/
def overriddenBy? (d : Disk) (path override : String) : Option String :=
  match dropEnd? (lastExtension override) path with
  | none => none
  | some stem =>
    if (dropEnd? override path).isSome then none
    else if d.isFile (stem ++ override) then some (stem ++ override)
    else none

/-- The file that takes the place of a path. -/
def overridden? (d : Disk) (overrides : List String) (path : String) : Option String :=
  overrides.findSome? (overriddenBy? d path)

end StyleBundle.Import
