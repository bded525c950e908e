import StyleBundle.Disk.Reading
import StyleBundle.Import.Target
import StyleBundle.Log

/-!
# Reading stylesheets

A stylesheet that does not exist is looked for once more in the other dialect. If it cannot be
opened there either, it contributes no text. Every other fault of the first look ends the read.
-/

namespace StyleBundle.Import

/-- How the read of a path went. -/
inductive Reading
  /-- The path itself was read. -/
  | direct (text : String)
  /-- The path is missing and its counterpart was read. -/
  | swapped (text : String)
  /-- Neither could be opened. -/
  | unresolved
  /-- A fault that ends the read; the flag says whether the counterpart was tried. -/
  | fatal (failure : Failure) (swapped : Bool)

variable [Limits]

/-- Reads a path. -/
def read (d : Disk) (path : String) : Reading :=
  match d.readText path with
  | .ok text => .direct text
  | .error (.disk (.refused .missing _)) =>
    match d.readText (counterpart path) with
    | .ok text => .swapped text
    | .error (.disk (.refused ..)) => .unresolved
    | .error failure => .fatal failure true
  | .error failure => .fatal failure false

/-- What a read contributes. -/
def Reading.text : Reading → Except Failure String
  | .direct text | .swapped text => .ok text
  | .unresolved => .ok ""
  | .fatal failure _ => .error failure

/-- The part of the program that logs reads. -/
def logSource : String := "sassplugin.compiler.resolver"

/-- The record of a look at the counterpart. -/
def swapRecord (path : String) : LogRecord :=
  ⟨.info, logSource, s!"File not found: '{path}'. Trying '{counterpart path}' instead."⟩

/-- The record of a stylesheet that contributes nothing. -/
def unresolvedRecord (path : String) : LogRecord :=
  ⟨.debug, logSource, s!"Unresolved stylesheet '{path}' contributes no content"⟩

/-- What the read of a path logs. -/
def Reading.records (path : String) : Reading → List LogRecord
  | .direct _ | .fatal _ false => []
  | .swapped _ | .fatal _ true => [swapRecord path]
  | .unresolved => [swapRecord path, unresolvedRecord path]

end StyleBundle.Import
