/-!
# Limits

A program runs within bounds that are not its own: the system takes no path of too many bytes, and
calls go down only so far before the interpreter stops them. How far is known only where the program
runs. Unless a bound is told there is none.
-/

namespace StyleBundle

/-- Whether a number keeps within a bound, if there is one. -/
def Within (bound : Option Nat) (n : Nat) : Prop := ∀ most ∈ bound, n ≤ most

instance (bound : Option Nat) (n : Nat) : Decidable (Within bound n) :=
  inferInstanceAs (Decidable (∀ most ∈ bound, n ≤ most))

theorem within_none (n : Nat) : Within none n := nofun

/-- What keeps within a bound does so for smaller numbers. -/
theorem Within.mono {bound : Option Nat} {n most : Nat} (h : Within bound most) (hle : n ≤ most) :
    Within bound n := fun limit hlimit => Nat.le_trans hle (h limit hlimit)

/-- The bounds within which the program runs. -/
class Limits where
  /-- The most bytes of a path. -/
  pathBytes : Option Nat
  /-- The most imports on the way from a stylesheet to one that it depends on. -/
  importDepth : Option Nat
  /-- The most stylesheets on a way of imports that are flattened into one another. -/
  flattenDepth : Option Nat

/-- Nothing is bounded. -/
instance unlimited : Limits := ⟨none, none, none⟩

end StyleBundle
