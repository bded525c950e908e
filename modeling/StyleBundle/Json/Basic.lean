import StyleBundle.Limits
import StyleBundle.Number.Binary64
import StyleBundle.Table

/-!
# JSON values

Source maps and cache entries are JSON. Objects keep their members in the order in which they
stand, and integers are kept apart from numbers written with a fraction or an exponent.

A JSON text can name half of a pair of surrogates, which is no character. A cache entry has no place
for it, and a source map hands it on. So values are built over a type of texts, and what the reader
and the printer have to know of that type is how its texts are made of signs.
-/

namespace StyleBundle

/-- A JSON value with its texts in a type. -/
inductive Json (τ : Type := String)
  /-- The null value. -/
  | null
  /-- A truth value. -/
  | bool (value : Bool)
  /-- A number written without fraction and exponent. -/
  | int (value : Int)
  /-- Any other number. -/
  | float (value : Number.Binary64)
  /-- A text. -/
  | str (value : τ)
  /-- A row of values. -/
  | arr (items : List (Json τ))
  /-- Members by name, each name once. -/
  | obj (members : List (τ × Json τ))

namespace Json

/-- The member of an object; other values have none. -/
def get? (key : String) : Json → Option Json
  | .obj members => Table.get? key members
  | _ => none

/-! ## Signs -/

/-- What a text in JSON is made of. -/
inductive Sign
  /-- A character. -/
  | char (c : Char)
  /-- A half of a pair of surrogates that stands alone, counted from the first one. -/
  | half (index : Fin 0x800)
  deriving DecidableEq

/-- The signs of a text without halves of surrogate pairs. -/
def signsOf (s : String) : List Sign := s.toList.map .char

/-- The character that a sign is, if it is one. -/
def Sign.char? : Sign → Option Char
  | .char c => some c
  | .half _ => none

/-- The text that signs make, if each of them is a character. -/
def ofSigns? (s : List Sign) : Option String := (s.mapM Sign.char?).map String.ofList

theorem ofSigns?_signsOf (s : String) : ofSigns? (signsOf s) = some s := by
  have hchars (l : List Char) : (l.map Sign.char).mapM Sign.char? = some l := by
    induction l with
    | nil => rfl
    | cons c l ih => rw [List.map_cons, List.mapM_cons, ih]; rfl
  rw [ofSigns?, signsOf, hchars, Option.map_some, String.ofList_toList]

/-- A type of texts that are made of signs. -/
class HasSigns (τ : Type) where
  /-- The signs of a text. -/
  signs : τ → List Sign
  /-- The text that signs make, if all of them may stand in it. -/
  ofSigns? : List Sign → Option τ
  /-- A text is made by its signs. -/
  ofSigns?_signs (t : τ) : ofSigns? (signs t) = some t

instance : HasSigns String where
  signs := signsOf
  ofSigns? := ofSigns?
  ofSigns?_signs := ofSigns?_signsOf

instance : HasSigns (List Sign) where
  signs := id
  ofSigns? := some
  ofSigns?_signs _ := rfl

/-! ## Nesting -/

mutual

/-- How deep lists and objects are nested in a value. -/
def depth {τ : Type} : Json τ → Nat
  | .arr items => depthItems items + 1
  | .obj members => depthMembers members + 1
  | _ => 0

/-- How deep the deepest item is. -/
def depthItems {τ : Type} : List (Json τ) → Nat
  | [] => 0
  | item :: rest => max (depth item) (depthItems rest)

/-- How deep the deepest member is. -/
def depthMembers {τ : Type} : List (τ × Json τ) → Nat
  | [] => 0
  | (_, value) :: rest => max (depth value) (depthMembers rest)

end

/-- How deep JSON may be nested. Reading and writing go down into a value by calls, and the calls
that are left for them depend on where they start. -/
structure Room where
  /-- The most levels of a text that is read, if there is a bound. -/
  reading : Option Nat
  /-- The most levels of a value that is written, if there is a bound. -/
  writing : Option Nat

/-- Room for any value. -/
def Room.unbounded : Room := ⟨none, none⟩

end Json

end StyleBundle
