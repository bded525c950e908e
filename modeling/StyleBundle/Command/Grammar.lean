import StyleBundle.Text.Digit
import StyleBundle.Text.Quoted
import StyleBundle.Text.Search

/-!
# Arguments of a command

A command takes switches, some of them with a value, and operands. A switch has a short name of
one letter, a long name, or both. A long name may be cut short as long as it stays unique, and
short names without values may share a hyphen. Two hyphens alone end the switches.

Words are classified first, all of them, and then taken from left to right. What is taken by
nothing is left over; whoever asked decides whether that is a mistake.
-/

namespace StyleBundle.Command

/-- A switch of a command. -/
structure Switch where
  /-- Its names, the short one first. -/
  names : List String
  /-- Whether a value follows. -/
  takesValue : Bool
  deriving DecidableEq, Repr

/-- The names of a switch as mistakes show them. -/
def Switch.label (s : Switch) : String := "/".intercalate s.names

/-- The switch that every command has: it asks for help. -/
def Switch.help : Switch := ⟨["-h", "--help"], false⟩

/-- What a command takes. -/
structure Grammar where
  /-- The name of the command as mistakes show it. -/
  name : String
  /-- How the command is called, in short. -/
  usage : String
  /-- What the command does and takes, behind the usage. -/
  details : String
  /-- The switches. -/
  switches : List Switch
  /-- Whether the operand takes all words that follow it. -/
  takesAll : Bool

/-- Why a command is not run. -/
inductive Stop
  /-- Help is asked for. -/
  | help (text : String)
  /-- The arguments are mistaken. -/
  | misuse (text : String)
  deriving DecidableEq, Repr

namespace Grammar

/-- The text of the help. -/
def helpText (g : Grammar) : String := g.usage ++ "\n" ++ g.details

/-- A mistake in the arguments. -/
def misuse {α : Type} (g : Grammar) (message : String) : Except Stop α :=
  .error (.misuse s!"{g.usage}{g.name}: error: {message}\n")

/-- A mistake in the arguments of one switch. -/
def misuseOf {α : Type} (g : Grammar) (s : Switch) (message : String) : Except Stop α :=
  g.misuse s!"argument {s.label}: {message}"

/-- The names of the switches with their switches. -/
def named (g : Grammar) : List (String × Switch) :=
  g.switches.flatMap fun s => s.names.map fun name => (name, s)

end Grammar

/-- A value that is written in the same word as its switch. -/
structure Attached where
  /-- Whether an equals sign stands before it. -/
  byEquals : Bool
  /-- The value. -/
  text : String
  deriving DecidableEq, Repr

/-- A word, classified. -/
inductive Word
  /-- An operand or the value of a switch. -/
  | plain (text : String)
  /-- Two hyphens alone. -/
  | dashes
  /-- A switch under one of its names, with an attached value perhaps. -/
  | known (text : String) (switch : Switch) (name : String) (attached : Option Attached)
  /-- What looks like a switch and is none. -/
  | unknown (text : String)
  deriving DecidableEq, Repr

/-- The word itself. -/
def Word.text : Word → String
  | .plain text | .unknown text => text
  | .known text .. => text
  | .dashes => "--"

/-- Whether a text starts with another. -/
def startsWith (front s : String) : Bool := (Text.dropFront? front.toList s.toList).isSome

/-- What stands before the first equals sign, and behind it if there is one. -/
def cutAtEquals (s : String) : String × Option Attached :=
  match Text.cut? ['='] s.toList with
  | some (before, behind) => (String.ofList before, some ⟨true, String.ofList behind⟩)
  | none => (s, none)

/-- Whether a word is a negative number: a hyphen and digits, with a point among them perhaps. -/
def isNegative (word : String) : Bool :=
  let s := word.toList
  match (if s.getLast? = some '\n' then s.dropLast else s) with
  | '-' :: digits =>
    match digits.dropWhile Text.isDigit with
    | [] => !digits.isEmpty
    | '.' :: fraction => !fraction.isEmpty && fraction.all Text.isDigit
    | _ => false
  | _ => false

namespace Grammar

/-- What a word may stand for that is not a name in full: a long name cut short, or a short name
with its value attached. -/
def readings (g : Grammar) (word : String) : List (Switch × String × Option Attached) :=
  if startsWith "--" word then
    let (stem, attached) := cutAtEquals word
    (g.named.filter fun (name, _) => startsWith stem name).map fun (name, s) =>
      (s, name, attached)
  else
    let short := String.ofList (word.toList.take 2)
    g.named.filterMap fun (name, s) =>
      if name = short then some (s, name, some ⟨false, String.ofList (word.toList.drop 2)⟩)
      else if startsWith word name then some (s, name, none)
      else none

/-- Classifies a word before any two hyphens. -/
def classify (g : Grammar) (word : String) : Except Stop Word :=
  let s := word.toList
  if s.head? ≠ some '-' then .ok (.plain word)
  else
    match g.named.lookup word with
    | some s => .ok (.known word s word none)
    | none =>
      if s.length = 1 then .ok (.plain word)
      else
        let (stem, attached) := cutAtEquals word
        match attached.bind fun _ => g.named.lookup stem with
        | some s => .ok (.known word s stem attached)
        | none =>
          match g.readings word with
          | [(s, name, attached)] => .ok (.known word s name attached)
          | [] => if isNegative word ∨ ' ' ∈ s then .ok (.plain word) else .ok (.unknown word)
          | several =>
            let names := ", ".intercalate (several.map fun (_, name, _) => name)
            g.misuse s!"ambiguous option: {word} could match {names}"

/-- Classifies all words; everything behind two hyphens is plain. -/
def classifyAll (g : Grammar) : List String → Except Stop (List Word)
  | [] => .ok []
  | word :: rest =>
    if word = "--" then .ok (.dashes :: rest.map .plain)
    else do
      let first ← g.classify word
      return first :: (← g.classifyAll rest)

end Grammar

/-- A switch that is given, with its value. -/
structure Given where
  /-- The switch. -/
  switch : Switch
  /-- Its value, if it takes one. -/
  value : Option String
  deriving DecidableEq, Repr

/-- What one word with a hyphen gives. -/
structure Bundle where
  /-- The switches with all they need. -/
  given : List Given
  /-- What is no switch. -/
  leftOver : Option String
  /-- A last switch whose value has to be the next word. -/
  awaiting : Option Switch

namespace Grammar

/-- A switch with nothing attached. -/
def bare (s : Switch) : Bundle :=
  if s.takesValue then ⟨[], none, some s⟩ else ⟨[⟨s, none⟩], none, none⟩

/-- Takes a short switch and what is attached to it: its value, or further short switches. -/
def bundle (g : Grammar) (s : Switch) (byEquals : Bool) : List Char → Except Stop Bundle
  | [] =>
    if s.takesValue then .ok ⟨[⟨s, some ""⟩], none, none⟩
    else g.misuseOf s "ignored explicit argument ''"
  | c :: rest =>
    if s.takesValue then .ok ⟨[⟨s, some (String.ofList (c :: rest))⟩], none, none⟩
    else if byEquals ∨ c = '-' then
      g.misuseOf s s!"ignored explicit argument {Text.quoted (String.ofList (c :: rest))}"
    else
      match g.named.lookup (String.ofList ['-', c]) with
      | none => .ok ⟨[⟨s, none⟩], some (String.ofList ('-' :: c :: rest)), none⟩
      | some next => do
        let more ←
          match rest with
          | [] => pure (bare next)
          | '=' :: text => g.bundle next true text
          | text => g.bundle next false text
        return { more with given := ⟨s, none⟩ :: more.given }
termination_by text => text.length

/-- Takes a switch under one of its names with what is attached to it. -/
def take (g : Grammar) (s : Switch) (name : String) : Option Attached → Except Stop Bundle
  | none => .ok (bare s)
  | some attached =>
    if startsWith "--" name then
      if s.takesValue then .ok ⟨[⟨s, some attached.text⟩], none, none⟩
      else g.misuseOf s s!"ignored explicit argument {Text.quoted attached.text}"
    else g.bundle s attached.byEquals attached.text.toList

end Grammar

/-- The arguments of a command, taken apart. -/
structure Parsed where
  /-- The switches in order. -/
  given : List Given
  /-- The words of the operand, if there is one. -/
  operand : Option (List String)
  /-- The words that nothing takes. -/
  leftOver : List String

namespace Parsed

/-- Whether a switch is given. -/
def has (p : Parsed) (s : Switch) : Bool := p.given.any (·.switch = s)

/-- The values of a switch, in order. -/
def values (p : Parsed) (s : Switch) : List String :=
  p.given.filterMap fun g => if g.switch = s then g.value else none

/-- The value of a switch; of several the last. -/
def value? (p : Parsed) (s : Switch) : Option String := (p.values s).getLast?

end Parsed

namespace Grammar

/-- Whether the operand takes the words: it does from the first plain one on, before which two
hyphens may stand. -/
def operand? (g : Grammar) (words : List Word) : Option (List String × List Word) :=
  let (dashes, behind) := words.span (· = .dashes)
  match behind with
  | .plain text :: rest =>
    if g.takesAll then some (words.map Word.text, [])
    else if dashes.isEmpty then some ([text], rest.dropWhile (· = .dashes))
    else some ([text], rest)
  | _ => none

/-- Takes the words from left to right. Asking for help stops at once, whatever follows. -/
def takeAll (g : Grammar) (p : Parsed) (words : List Word) : (fuel : Nat) → Except Stop Parsed
  | 0 => .ok p
  | fuel + 1 =>
    match words with
    | [] => .ok p
    | .known _ s name attached :: rest => do
      let bundle ← g.take s name attached
      let (given, rest) ←
        match bundle.awaiting, rest with
        | none, _ => pure (bundle.given, rest)
        | some s, .plain value :: rest => pure (bundle.given ++ [⟨s, some value⟩], rest)
        | some s, _ => g.misuseOf s "expected one argument"
      if given.any (·.switch = .help) then .error (.help g.helpText)
      else
        let p := { p with
          given := p.given ++ given
          leftOver := p.leftOver ++ bundle.leftOver.toList }
        g.takeAll p rest fuel
    | .unknown text :: rest => g.takeAll { p with leftOver := p.leftOver ++ [text] } rest fuel
    | word :: rest =>
      match if p.operand.isNone then g.operand? (word :: rest) else none with
      | some (operand, rest) => g.takeAll { p with operand := some operand } rest fuel
      | none => g.takeAll { p with leftOver := p.leftOver ++ [word.text] } rest fuel

/-- The arguments of a command, taken apart. -/
def parse (g : Grammar) (arguments : List String) : Except Stop Parsed := do
  let words ← g.classifyAll arguments
  g.takeAll ⟨[], none, []⟩ words (words.length + 1)

end Grammar

end StyleBundle.Command
