import StyleBundle.Import.Read
import StyleBundle.Import.Statement

/-!
# Inlining imports

Flattening a stylesheet takes its statements out one by one, in order. Each time the remaining
text is trimmed, all its line breaks are dropped, and the flattened text of the target comes last.
A later statement may have lost its line breaks by then, and is looked for in that form too.

Imports that come back to a stylesheet on the way to them have no flattened text. They are told
by the depth. Where calls may go down only so far, that many stylesheets are too many. Else a chain
of imports longer than the number of paths that the files can name has to come back to one of them.
-/

namespace StyleBundle.Import

/-- What flattening a stylesheet reads, in order, and what it gives. -/
structure Flattening where
  /-- The paths read, with how each read went. -/
  reads : List (String × Reading)
  /-- The flattened text, or what ended the work. -/
  result : Except Failure (List Char)

namespace Flattening

/-- What the reads log. -/
def records (f : Flattening) : List LogRecord :=
  f.reads.flatMap fun (path, reading) => reading.records path

/-- The flattened text. -/
def text (f : Flattening) : Except Failure String := f.result.map String.ofList

end Flattening

/-- The remaining text without one statement, trimmed and on one line. -/
def removeStatement (statement remaining : List Char) : List Char :=
  let found :=
    if Text.contains statement remaining then statement else Text.dropLineBreaks statement
  Text.dropLineBreaks (Text.trim (Text.replaceFirst found [] remaining))

/-- Replaces the statements in turn, where `flatten` flattens a target. -/
def replaceStatements (flatten : String → Flattening) :
    List Statement → (remaining : List Char) → Flattening
  | [], remaining => ⟨[], .ok remaining⟩
  | statement :: rest, remaining =>
    let inner := flatten statement.target
    match inner.result with
    | .error failure => ⟨inner.reads, .error failure⟩
    | .ok text =>
      let outer := replaceStatements flatten rest
        (removeStatement statement.text.toList remaining ++ text)
      ⟨inner.reads ++ outer.reads, outer.result⟩

/-- The path that is read for a given one: a file name without a dot gets the extension. -/
def entryPath (extension path : String) : String :=
  let name := Text.lastPiece '/' path.toList
  if name = [] ∨ '.' ∈ name then path else path ++ extension

/-- The path from which a target is read by the stylesheet at a path. -/
def targetPath (root extension path target : String) : String :=
  resolve root extension (Path.segments path).dropLast target

/-- Flattens the stylesheet at a path, which is read from `entry`, where `flatten` flattens those
that it imports. -/
def flattenReading (root extension : String) (flatten : String → Flattening)
    (path entry : String) (reading : Reading) : Flattening :=
  match reading.text with
  | .error failure => ⟨[(entry, reading)], .error failure⟩
  | .ok text =>
    let inner := replaceStatements (fun target => flatten (targetPath root extension path target))
      (statements text) text.toList
    ⟨(entry, reading) :: inner.reads, inner.result⟩

variable [Limits]

/-- Flattens the stylesheet at a path, going down at most `depth` imports. -/
def flattenWithin (d : Disk) (root extension : String) : (depth : Nat) → String → Flattening
  | 0, _ => ⟨[], .error .importCycle⟩
  | depth + 1, path =>
    let entry := entryPath extension path
    flattenReading root extension (flattenWithin d root extension depth) path entry (read d entry)

/-- The statements that the bytes of a file write, none if they write no text. -/
def statementsOf (bytes : List UInt8) : List Statement :=
  match Disk.textOf bytes with
  | .ok text => statements text
  | .error _ => []

/-- The number of statements in all files that can be read. -/
def statementCount (d : Disk) : Nat :=
  (d.files.flatMap fun (_, bytes) => statementsOf bytes).length

/-- More than the length of any chain of imports without a repetition: the entry, the absolute
targets that stand in the files, and for every file its path with one or two leading slashes, in
either dialect, with the extension or without it. -/
def chainBound (d : Disk) : Nat := 2 + 8 * d.files.length + statementCount d

/-- Flattens the stylesheet at a path. -/
def flatten (d : Disk) (root extension path : String) : Flattening :=
  flattenWithin d root extension (Limits.flattenDepth.getD (chainBound d)) path

end StyleBundle.Import
