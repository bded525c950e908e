import StyleBundle.Compile.Engine

/-!
# Compilers

A compiler is given a request and calls back with a report, at least once; only the first report
counts. It is either the adapter of a style engine or a compiler that the host provides. What a
compiler was asked is kept, call by call.
-/

namespace StyleBundle

/-- How a compiler deals with a request. -/
structure Reply where
  /-- The answers that it got from the import hook, if there is one. -/
  answers : Option (List (Option Import.Target))
  /-- Its reports in order, or the failure that it ends with before it reports. -/
  reports : Except Failure (Report × List Report)

/-- How a compiler compiles. -/
inductive Compiler.Kind
  /-- The host's own way, which may depend on the number of calls before. -/
  | host (reply : (calls : Nat) → Disk → Request → Reply)
  /-- By a style engine. -/
  | engine (engine : Engine)

/-- What a compiler was asked in one call. -/
inductive Compiler.Call
  /-- A request, and the hook's answers. -/
  | request (request : Request) (answers : Option (List (Option Import.Target)))
  /-- A job for the engine, and the hook's answers. -/
  | job (job : Job) (answers : Option (List Adapted))

/-- A compiler with the calls made so far. -/
structure Compiler where
  /-- How it compiles. -/
  kind : Compiler.Kind
  /-- The number of calls made so far. -/
  count : Nat
  /-- The calls that nobody has looked at yet, in order. -/
  calls : List Compiler.Call

namespace Compiler

/-- A compiler that has not been called. -/
def fresh (kind : Kind) : Compiler := ⟨kind, 0, []⟩

/-- What one compile gives: the report that counts, the compiler afterwards, and log records. -/
structure Rendering where
  /-- The first report, or what kept the compiler from reporting. -/
  report : Except Failure Report
  /-- The compiler with the call noted. -/
  compiler : Compiler
  /-- What the compile logs. -/
  records : List LogRecord

/-- Compiles a request and waits for the first report. -/
def render (c : Compiler) (d : Disk) (r : Request) : Rendering :=
  match c.kind with
  | .host reply =>
    let reply := reply c.count d r
    { report := reply.reports.map Prod.fst
      compiler :=
        { c with count := c.count + 1, calls := c.calls ++ [.request r reply.answers] }
      records := [] }
  | .engine engine =>
    let job := Job.ofRequest d r
    let run := Engine.run (fun _ => .ok ()) (engine.compile d r)
    { report := run.answer.map Prod.fst
      compiler :=
        { c with count := c.count + 1, calls := c.calls ++ [.job job (engine job).answers] }
      records := run.records }

end Compiler

end StyleBundle
