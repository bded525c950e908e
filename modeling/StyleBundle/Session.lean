import StyleBundle.Compile.Compiler

/-!
# Sessions

What lasts from one transform to the next: the disk, the style engine that can be loaded, the
compiler that all plugins share, and the resources, which are read once and then kept whatever
happens to their files.
-/

namespace StyleBundle

/-- What lasts from one transform to the next. -/
structure Session where
  /-- The disk. -/
  disk : Disk
  /-- The style engine, if there is one. -/
  engine : Option Engine
  /-- The shared compiler, once there is one. -/
  compiler : Option Compiler
  /-- The resources once they are read; there may be none. -/
  resources : Option (Option String)

namespace Session

/-- The shared compiler, made from the engine on first use. -/
def sharedCompiler (s : Session) : Except Failure Compiler :=
  match s.compiler, s.engine with
  | some compiler, _ => .ok compiler
  | none, some engine => .ok (.fresh (.engine engine))
  | none, none => .error .noEngine

variable [Limits]

/-- The texts of some files, or the first failure to read one. -/
def readTexts (d : Disk) : List String → Except Failure (List String)
  | [] => .ok []
  | path :: rest =>
    match d.readText path with
    | .error failure => .error failure
    | .ok text =>
      match readTexts d rest with
      | .error failure => .error failure
      | .ok texts => .ok (text :: texts)

/-- The texts on lines of their own; nothing if there is none. -/
def joinTexts : List String → Option String
  | [] => none
  | texts => some ("\n".intercalate texts ++ "\n")

/-- The resources, read from the paths unless they have been read before, and the session
afterwards. A failed read leaves the session as it was. -/
def loadResources (s : Session) (paths : List String) :
    Except Failure (Option String) × Session :=
  match s.resources with
  | some resources => (.ok resources, s)
  | none =>
    match readTexts s.disk paths with
    | .error failure => (.error failure, s)
    | .ok texts => (.ok (joinTexts texts), { s with resources := some (joinTexts texts) })

/-- The session of a new process on the same disk. -/
def restart (s : Session) : Session := { s with compiler := none, resources := none }

end Session

end StyleBundle
