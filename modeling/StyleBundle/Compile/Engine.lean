import StyleBundle.Compile.Request
import StyleBundle.Compile.SourceMap

/-!
# The style engine

The engine itself is not part of the program: it is whatever takes a job and gives compiled text
or fails. This module says what a request means as a job, what becomes of compiled text, and what a
callback is told of a compile.
-/

namespace StyleBundle

/-- What a hook's answer means to the engine: leave the import to it, read a file, or take a text
under a name. -/
inductive Adapted
  /-- The engine looks the import up itself. -/
  | unchanged
  /-- The engine reads this file. -/
  | file (path : String)
  /-- The engine takes this text under the name. -/
  | text (name contents : String)
  deriving DecidableEq, Repr

/-- The first of some optional texts that is there and not empty, or else the last resort. -/
def firstGiven (resort : String) : List (Option String) → String
  | [] => resort
  | some s :: rest => if s = "" then firstGiven resort rest else s
  | none :: rest => firstGiven resort rest

/-- What a hook's answer about a url means to the engine. An address without text is left to the
engine. -/
def Adapted.ofAnswer (url : String) : Option Import.Target → Adapted
  | none => .unchanged
  | some answer =>
    match answer.contents with
    | some contents => .text (firstGiven url [answer.file, answer.url]) contents
    | none =>
      match answer.file with
      | some path => if path = "" then .unchanged else .file path
      | none => .unchanged

/-- A job for the engine. -/
structure Job where
  /-- The text to compile. -/
  text : String
  /-- The word for the output style. -/
  outputStyle : String
  /-- The directories searched for imports, in order. -/
  includePaths : List String
  /-- Whether the text is in the indented dialect. -/
  indented : Bool
  /-- Functions that the text may call, by signature. -/
  functions : Table String String
  /-- The number of digits behind the decimal point, if it is not the engine's own. -/
  precision : Option Int
  /-- The import hook as the engine asks it. -/
  importer : Option (Nat → (url origin : String) → Except Failure Adapted)
  /-- Whether a source map is put behind the text, and then whether it holds the sources. -/
  embeddedMap : Option Bool

/-- What the engine gives back for a job. -/
structure JobResult where
  /-- The answers that the engine got from the hook, if it has one. -/
  answers : Option (List Adapted)
  /-- The compiled text. -/
  css : Except Failure String

/-- A style engine. -/
abbrev Engine := Job → JobResult

namespace Job

/-- The request as a job. -/
def ofRequest (d : Disk) (r : Request) : Job where
  text := r.data
  outputStyle := r.outputStyle
  includePaths := r.includePaths
  indented := r.indentedSyntax
  functions := r.functions
  precision := r.precision
  importer := r.hook.map fun hook asked url origin =>
    (hook.answer asked d url origin).map (Adapted.ofAnswer url)
  embeddedMap := if r.sourceMap then some r.sourceMapContents else none

end Job

namespace Engine

/-- What becomes of compiled text: its map is taken off and relabelled, with room for so many
levels. -/
def finish (room : Json.Room) (r : Request) (css : String) : Except Failure Output :=
  match SourceMap.takeOff css with
  | .error failure => .error failure
  | .ok ⟨css, none⟩ => .ok ⟨css, none⟩
  | .ok ⟨css, some map⟩ =>
    match SourceMap.relabelWithin room r.outFile r.file map with
    | .error failure => .error failure
    | .ok map => .ok ⟨css, some map⟩

/-- Compiles a request, with room for so many levels of a source map. -/
def compileWithin (room : Json.Room) (engine : Engine) (d : Disk) (r : Request) :
    Except Failure Output :=
  match (engine (Job.ofRequest d r)).css with
  | .error failure => .error failure
  | .ok css => finish room r css

/-- Compiles a request, with room for any source map. -/
def compile : Engine → Disk → Request → Except Failure Output := compileWithin .unbounded

/-- The part of the program that logs the engine's faults. -/
def logSource : String := "sassplugin.compiler.backend"

/-- The record of a fault that is not the stylesheet's. -/
def faultRecord : LogRecord := ⟨.error, logSource, "Stylesheet compiler failed unexpectedly"⟩

/-- What a run of a compile does for the callback that waits for it. -/
structure Run where
  /-- The reports that the callback is called with, in order. -/
  reports : List Report
  /-- What is logged. -/
  records : List LogRecord
  /-- How the run ends. It lets out what the callback fails with, and the failure to read the place
  in a message. -/
  ending : Except Failure Unit

/-- The run that calls back once. -/
def Run.calling (done : Report → Except Failure Unit) (report : Report)
    (records : List LogRecord) : Run :=
  ⟨[report], records, done report⟩

/-- The reports of a run, of which there is one at least, or else what keeps it from calling
back. -/
def Run.answer (run : Run) : Except Failure (Report × List Report) :=
  match run.reports, run.ending with
  | report :: later, _ => .ok (report, later)
  | [], .error failure => .error failure
  | [], .ok () => .error .noOutcome

/-- Reports to a callback what has become of a compile. A stylesheet's fault is reported where the
engine finds it, any other fault without a place. -/
def run (done : Report → Except Failure Unit) : Except Failure Output → Run
  | .ok output => .calling done ⟨none, some output⟩ []
  | .error (.stylesheet message) =>
    match Diagnosis.ofMessage message with
    | .ok diagnosis => .calling done ⟨some diagnosis, none⟩ []
    | .error failure => ⟨[], [], .error failure⟩
  | .error failure => .calling done ⟨some (.placeless failure.message), none⟩ [faultRecord]

/-- The report of a compile, and what it logs. What keeps a run from calling back stands in for its
report. -/
def reportOf (compiled : Except Failure Output) : Report × List LogRecord :=
  let run := run (fun _ => .ok ()) compiled
  match run.answer with
  | .ok (report, _) => (report, run.records)
  | .error failure => (⟨some (.placeless failure.message), none⟩, run.records)

end Engine

end StyleBundle
