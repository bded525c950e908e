import StyleBundle.Failure
import StyleBundle.Import.Macro
import StyleBundle.Import.Override

/-!
# Import hooks

A hook is asked for every import: it may point to a file, pass the import on as an address, or
provide the text itself. The hook built here expands macros, normalises the path and lets
overrides remap it; addresses with a scheme pass through untouched.
-/

namespace StyleBundle.Import

/-- The answer of a hook. Usually one field is set. -/
structure Target where
  /-- A file to read. -/
  file : Option String
  /-- An address that is left to the browser. -/
  url : Option String
  /-- The text that is imported. -/
  contents : Option String
  deriving DecidableEq, Repr

/-- A hook answers a question about a url and the file that imports it, or has nothing to say.
It may look at the disk, and at the number of questions that came before. -/
structure Hook where
  /-- The answer to a question. -/
  answer : (asked : Nat) → Disk → (url origin : String) → Except Failure (Option Target)

/-- Whether a url holds one of the schemes that are never looked up. -/
def hasScheme (url : String) : Bool :=
  Text.contains "http:".toList url.toList || Text.contains "https:".toList url.toList

variable [Limits]

/-- The file that a url names once macros and overrides are applied. -/
def remap (d : Disk) (macros : Macros) (overrides : Option (List String)) (url : String) :
    String :=
  let path := Path.normalise (expand macros url)
  match overrides with
  | none => path
  | some overrides => (overridden? d overrides path).getD path

/-- The hook that expands macros. -/
def macroHook (macros : Macros) (overrides : Option (List String)) : Hook where
  answer _ d url _ :=
    if hasScheme url then .ok (some ⟨none, some url, none⟩)
    else .ok (some ⟨some (remap d macros overrides url), none, none⟩)

end StyleBundle.Import
