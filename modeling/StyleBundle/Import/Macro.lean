import StyleBundle.Table
import StyleBundle.Text.Search

/-!
# Macros

A macro stands for a piece of a path. Substitution is textual: the macros are taken in table
order, and each replaces the first occurrence of its name, which may lie in what an earlier macro
put there.
-/

namespace StyleBundle.Import

/-- What each macro stands for. -/
abbrev Macros := Table String String

/-- The url with one macro replaced. -/
def substitute (url : String) (macroEntry : String × String) : String :=
  String.ofList
    (Text.replaceFirst macroEntry.1.toList macroEntry.2.toList url.toList)

/-- The url with every macro replaced once, in table order. -/
def expand (macros : Macros) (url : String) : String := macros.foldl substitute url

end StyleBundle.Import
