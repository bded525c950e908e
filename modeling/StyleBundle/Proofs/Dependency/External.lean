import Mathlib.Data.List.Forall2
import StyleBundle.Proofs.Dependency.Traversal
import StyleBundle.Proofs.Text.Occurrence

/-!
# Addresses, to the walk and to the macro hook

The walk skips addresses before it asks a hook, and the macro hook passes addresses on. Each has a
test of its own: the walk looks at the start of a target, in any letter case, and the hook for a
scheme anywhere, in lower case. The tests agree on addresses with a scheme in lower case and on
targets without a colon that do not start with two slashes, but not on every target.
-/

namespace StyleBundle.Dependency

/-- The target starts with a word, in any letter case. -/
def StartsAs (word target : String) : Prop :=
  ∃ front rest, target.toList = front ++ rest ∧
    List.Forall₂ (fun letter c => isForm letter c = true) word.toList front

/-- One of the two schemes stands somewhere in the target, in lower case. -/
def HoldsScheme (target : String) : Prop :=
  "http:".toList <:+: target.toList ∨ "https:".toList <:+: target.toList

/-- The walk skips a target whatever its hook is, so that it does not ask. -/
def Skips (d : Disk) (s : Search) (origin target : String) : Prop :=
  ∀ hook asked, lookupTarget d { s with hook := hook } asked ⟨origin, target⟩ = .ok none

/-- The macro hook answers a target with the same address, and with no file. -/
def Passes (d : Disk) (macros : Import.Macros) (overrides : Option (List String))
    (origin target : String) : Prop :=
  ∀ asked, (Import.macroHook macros overrides).answer asked d target origin =
    .ok (some ⟨none, some target, none⟩)

/-- A target that only one of the two takes for an address. -/
inductive Drifts (target : String) : Prop
  /-- Two slashes at the start are an address to the walk only. -/
  | twoSlashes (hstart : StartsAs "//" target) (hscheme : ¬ HoldsScheme target)
  /-- A scheme at the start that is not in lower case is an address to the walk only. -/
  | letterCase (hstart : StartsAs "http://" target ∨ StartsAs "https://" target)
      (hscheme : ¬ HoldsScheme target)
  /-- A scheme further behind, or without two slashes, is an address to the hook only. -/
  | inside (hscheme : HoldsScheme target) (hslashes : ¬ StartsAs "//" target)
      (hstart : ¬ (StartsAs "http://" target ∨ StartsAs "https://" target))

variable {d : Disk} {s : Search} {macros : Import.Macros} {overrides : Option (List String)}
  {origin target : String}

/-! ## The two tests -/

/-- A word is dropped from a text that starts with it in any letter case. -/
theorem isSome_dropWord?_iff {word text : List Char} : (dropWord? word text).isSome = true ↔
    ∃ front rest, text = front ++ rest ∧
      List.Forall₂ (fun letter c => isForm letter c = true) word front := by
  induction word generalizing text with
  | nil =>
    constructor
    · exact fun _ => ⟨[], text, rfl, .nil⟩
    · exact fun _ => rfl
  | cons letter word ih =>
    cases text with
    | nil =>
      constructor
      · intro h
        cases h
      · rintro ⟨front, rest, hfront, hforms⟩
        obtain ⟨rfl, -⟩ := List.append_eq_nil_iff.1 hfront.symm
        cases hforms
    | cons c text =>
      rw [dropWord?]
      split
      next hform =>
        rw [ih]
        constructor
        · rintro ⟨front, rest, rfl, hforms⟩
          exact ⟨c :: front, rest, rfl, .cons hform hforms⟩
        · rintro ⟨front, rest, hfront, hforms⟩
          cases hforms with
          | cons _ hforms => exact ⟨_, rest, (List.cons.inj hfront).2, hforms⟩
      next hform =>
        constructor
        · intro h
          cases h
        · rintro ⟨front, rest, hfront, hforms⟩
          cases hforms with
          | cons hform' _ =>
            rw [← (List.cons.inj hfront).1] at hform'
            exact absurd hform' hform

instance (word target : String) : Decidable (StartsAs word target) :=
  decidable_of_iff _ isSome_dropWord?_iff

instance (target : String) : Decidable (HoldsScheme target) := by
  unfold HoldsScheme
  infer_instance

/-- The walk takes a target for an address by its start. -/
theorem isExternal_iff : isExternal target = true ↔
    StartsAs "//" target ∨ (StartsAs "http://" target ∨ StartsAs "https://" target) ∨
      StartsAs "url(" target := by
  simp only [isExternal, Bool.or_eq_true, isSome_dropWord?_iff, StartsAs, or_assoc]

/-- The walk skips exactly what it takes for an address. -/
theorem skips_iff : Skips d s origin target ↔ isExternal target = true := by
  constructor
  · intro h
    by_contra hexternal
    have hnone := h none 0
    rw [lookupTarget, if_neg hexternal] at hnone
    cases hnone
  · intro h hook asked
    rw [lookupTarget, if_pos h]

/-- The hook looks for the schemes wherever they stand. -/
theorem hasScheme_iff : Import.hasScheme target = true ↔ HoldsScheme target := by
  rw [Import.hasScheme, Bool.or_eq_true, Text.contains_iff, Text.contains_iff, HoldsScheme]

/-- The hook passes on exactly what holds a scheme. -/
theorem passes_iff : Passes d macros overrides origin target ↔ HoldsScheme target := by
  unfold Passes Import.macroHook
  rw [← hasScheme_iff]
  by_cases h : Import.hasScheme target = true
  · simp [h]
  · simp [h]

/-! ## Where they agree -/

/-- A text starts as it is written. -/
theorem startsAs_of_written {word : String} (h : word.toList <+: target.toList) :
    StartsAs word target := by
  obtain ⟨rest, hrest⟩ := h
  refine ⟨word.toList, rest, hrest.symm, List.forall₂_same.2 fun c _ => ?_⟩
  simp [isForm]

/-- Two slashes have one form. -/
theorem prefix_of_startsAs_slashes (h : StartsAs "//" target) : "//".toList <+: target.toList := by
  have hform : ∀ c, isForm '/' c = true → c = '/' := by simp [isForm]
  obtain ⟨front, rest, htarget, hforms⟩ := h
  obtain ⟨first, more, hfirst, hmore, rfl⟩ := List.forall₂_cons_left_iff.1 hforms
  obtain ⟨second, tail, hsecond, htail, rfl⟩ := List.forall₂_cons_left_iff.1 hmore
  obtain rfl := List.forall₂_nil_left_iff.1 htail
  rw [hform first hfirst, hform second hsecond] at htarget
  exact ⟨rest, htarget.symm⟩

/-- A colon of the word stands in what starts with it. -/
theorem colon_mem_of_startsAs {word : String} (hword : ':' ∈ word.toList)
    (h : StartsAs word target) : ':' ∈ target.toList := by
  have hform : ∀ c, isForm ':' c = true → c = ':' := by simp [isForm]
  have hmem : ∀ letters front : List Char, ':' ∈ letters →
      List.Forall₂ (fun letter c => isForm letter c = true) letters front → ':' ∈ front := by
    intro letters front hletters hforms
    induction hforms with
    | nil => cases hletters
    | @cons letter c letters front hfirst _ ih =>
      rcases List.mem_cons.1 hletters with rfl | hletters
      · rw [hform c hfirst]
        exact List.mem_cons_self ..
      · exact List.mem_cons_of_mem _ (ih hletters)
  obtain ⟨front, rest, htarget, hforms⟩ := h
  rw [htarget]
  exact List.mem_append_left _ (hmem _ _ hword hforms)

/-- The two tests give the same exactly on what does not drift. -/
theorem isExternal_iff_holdsScheme_iff (hurl : ¬ StartsAs "url(" target) :
    (isExternal target = true ↔ HoldsScheme target) ↔ ¬ Drifts target := by
  rw [isExternal_iff]
  constructor
  · intro hagree hdrifts
    cases hdrifts with
    | twoSlashes hstart hscheme => exact hscheme (hagree.1 (.inl hstart))
    | letterCase hstart hscheme => exact hscheme (hagree.1 (.inr (.inl hstart)))
    | inside hscheme hslashes hstart =>
      rcases hagree.2 hscheme with h | h | h
      · exact hslashes h
      · exact hstart h
      · exact hurl h
  · intro hdrifts
    constructor
    · intro hexternal
      by_contra hscheme
      rcases hexternal with h | h | h
      · exact hdrifts (.twoSlashes h hscheme)
      · exact hdrifts (.letterCase h hscheme)
      · exact hurl h
    · intro hscheme
      by_contra hexternal
      simp only [not_or] at hexternal
      exact hdrifts (.inside hscheme hexternal.1 (not_or.2 hexternal.2.1))

/-- Both tests take a scheme in lower case at the start for an address. -/
theorem isExternal_and_holdsScheme_of_starts
    (h : "http://".toList <+: target.toList ∨ "https://".toList <+: target.toList) :
    isExternal target = true ∧ HoldsScheme target := by
  have hhttp : "http:".toList <+: "http://".toList := by decide
  have hhttps : "https:".toList <+: "https://".toList := by decide
  rw [isExternal_iff]
  rcases h with h | h
  · exact ⟨.inr (.inl (.inl (startsAs_of_written h))), .inl (hhttp.trans h).isInfix⟩
  · exact ⟨.inr (.inl (.inr (startsAs_of_written h))), .inr (hhttps.trans h).isInfix⟩

/-- Neither test takes for an address what holds no colon and does not start with two slashes. -/
theorem not_isExternal_and_not_holdsScheme (hurl : ¬ StartsAs "url(" target)
    (hcolon : ':' ∉ target.toList) (hslashes : ¬ "//".toList <+: target.toList) :
    ¬ isExternal target = true ∧ ¬ HoldsScheme target := by
  rw [isExternal_iff]
  constructor
  · rintro (h | (h | h) | h)
    · exact hslashes (prefix_of_startsAs_slashes h)
    · exact hcolon (colon_mem_of_startsAs (by decide) h)
    · exact hcolon (colon_mem_of_startsAs (by decide) h)
    · exact hurl h
  · rintro (h | h)
    · exact hcolon (h.subset (by decide))
    · exact hcolon (h.subset (by decide))

/-- The walk skips a target, before it asks a hook, exactly if the macro hook passes it on, unless
the target drifts. Both take it for an address if it starts with a scheme in lower case, and neither
does if it holds no colon and does not start with two slashes. -/
theorem skips_iff_passes_iff (hurl : ¬ StartsAs "url(" target) :
    ((Skips d s origin target ↔ Passes d macros overrides origin target) ↔ ¬ Drifts target) ∧
    ("http://".toList <+: target.toList ∨ "https://".toList <+: target.toList →
      Skips d s origin target ∧ Passes d macros overrides origin target) ∧
    (':' ∉ target.toList → ¬ "//".toList <+: target.toList →
      ¬ Skips d s origin target ∧ ¬ Passes d macros overrides origin target) := by
  rw [skips_iff, passes_iff]
  exact ⟨isExternal_iff_holdsScheme_iff hurl, isExternal_and_holdsScheme_of_starts,
    not_isExternal_and_not_holdsScheme hurl⟩

/-- A web address is skipped and passed on, and a plain target is neither. -/
theorem skips_iff_passes_web : ¬ StartsAs "url(" "https://host/a.css" ∧
    ¬ StartsAs "url(" "lib/a" ∧
    (Skips ring plainSearch "/s/main.scss" "https://host/a.css" ∧
      Passes ring [] none "/s/main.scss" "https://host/a.css") ∧
    ¬ Skips ring plainSearch "/s/main.scss" "lib/a" ∧
    ¬ Passes ring [] none "/s/main.scss" "lib/a" := by
  have hweb : ¬ StartsAs "url(" "https://host/a.css" := by decide
  have hplain : ¬ StartsAs "url(" "lib/a" := by decide
  exact ⟨hweb, hplain, (skips_iff_passes_iff hweb).2.1 (.inr (by decide)),
    (skips_iff_passes_iff hplain).2.2 (by decide) (by decide)⟩

/-- The walk skips an address with its scheme in capitals, which the hook takes for a path and
normalises. Two slashes at the start and a scheme inside drift too. -/
theorem exists_drift : ¬ StartsAs "url(" "HTTP://host/a.css" ∧
    Skips ring plainSearch "/s/main.scss" "HTTP://host/a.css" ∧
    ¬ Passes ring [] none "/s/main.scss" "HTTP://host/a.css" ∧
    (Import.macroHook [] none).answer 0 ring "HTTP://host/a.css" "/s/main.scss" =
      .ok (some ⟨some "HTTP:/host/a.css", none, none⟩) ∧
    Drifts "//host/a.css" ∧ Drifts "lib/http:a" := by
  refine ⟨by decide, skips_iff.2 (by decide), passes_iff.not.2 (by decide), ?_,
    .twoSlashes (by decide) (by decide), .inside (by decide) (by decide) (by decide)⟩
  have hpath : Import.remap ring [] none "HTTP://host/a.css" = "HTTP:/host/a.css" := by
    decide +kernel
  have hscheme : Import.hasScheme "HTTP://host/a.css" = false := by decide
  simp [Import.macroHook, hscheme, hpath]

end StyleBundle.Dependency
