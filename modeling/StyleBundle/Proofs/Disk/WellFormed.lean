import Mathlib.Data.List.Induction
import StyleBundle.Disk.Basic
import StyleBundle.Proofs.Path.Segments

/-!
# Well-formed disks

A disk is well formed when its nodes make a tree: a directory at the root, a directory above every
node, names on the way to it, and a directory to work in. On such a disk the walk to a path and the
text of the path say the same, so that every path that leads somewhere has one absolute spelling
up to the number of its leading slashes.
-/

namespace StyleBundle.Disk

/-- A name that the disk takes: not too long and without a NUL. -/
def IsFileName (name : String) : Prop :=
  Path.IsName name ∧ '\x00' ∉ name.toList ∧ isLongName name = false

instance (name : String) : Decidable (IsFileName name) := by
  unfold IsFileName
  infer_instance

/-- Whether a directory stands at a location. -/
def hasDirectory (d : Disk) (location : Location) : Bool :=
  (d.node? location).any (!·.isFile)

/-- A directory at a location is a node that is no file. -/
theorem hasDirectory_iff {d : Disk} {location : Location} :
    d.hasDirectory location = true ↔ ∃ changed, d.node? location = some (.directory changed) := by
  unfold hasDirectory
  cases d.node? location with
  | none => simp
  | some node => cases node <;> simp [Node.isFile]

/-- The nodes of a disk make a tree of named nodes, and the working directory is in it. -/
structure WellFormed (d : Disk) : Prop where
  /-- The root is a directory. -/
  root : d.hasDirectory [] = true
  /-- What a node stands in is a directory. -/
  parent : ∀ location node, d.node? location = some node →
    d.hasDirectory location.dropLast = true
  /-- Names lead to a node. -/
  names : ∀ location node, d.node? location = some node → ∀ name ∈ location, IsFileName name
  /-- The working directory exists. -/
  home : d.hasDirectory d.home = true

/-- A disk is well formed if its list of nodes passes the checks. -/
theorem WellFormed.of_nodes {d : Disk} (hroot : d.hasDirectory [] = true)
    (hnodes : ∀ entry ∈ d.nodes, d.hasDirectory entry.1.dropLast = true ∧
      ∀ name ∈ entry.1, IsFileName name)
    (hhome : d.hasDirectory d.home = true) : d.WellFormed where
  root := hroot
  parent _ _ h := (hnodes _ (Table.mem_of_get? h)).1
  names _ _ h := (hnodes _ (Table.mem_of_get? h)).2
  home := hhome

namespace WellFormed

variable {d : Disk}

/-- A disk stays well formed when time passes. -/
theorem withClock (hd : d.WellFormed) (clock : Stamp) : WellFormed { d with clock } :=
  ⟨hd.root, hd.parent, hd.names, hd.home⟩

/-- Every location on the way to a node is a directory. -/
theorem hasDirectory_of_append (hd : d.WellFormed) {above : Location} {node : Node}
    {names : List String} (hne : names ≠ []) (h : d.node? (above ++ names) = some node) :
    d.hasDirectory above = true := by
  induction names using List.reverseRecOn generalizing node with
  | nil => exact absurd rfl hne
  | append_singleton names name ih =>
    have hparent := hd.parent _ _ h
    rw [← List.append_assoc, List.dropLast_concat] at hparent
    cases names with
    | nil => simpa using hparent
    | cons first rest =>
      obtain ⟨_, hnode⟩ := hasDirectory_iff.1 hparent
      exact ih (by simp) hnode

/-- The names in the way of the working directory. -/
theorem home_names (hd : d.WellFormed) : ∀ name ∈ d.home, IsFileName name := by
  obtain ⟨_, h⟩ := hasDirectory_iff.1 hd.home
  exact hd.names _ _ h

end WellFormed

/-! ## Walking -/

/-- A walk that arrives does so where the segments lead. -/
theorem eq_foldl_of_walk {d : Disk} {here location : Location} {segments : List String}
    (h : d.walk here segments = .ok location) :
    location = segments.foldl Path.descend here := by
  induction segments generalizing here with
  | nil => simpa [walk, eq_comm] using h
  | cons segment rest ih =>
    unfold walk at h
    split at h
    · cases h
    · cases h
    · rw [List.foldl_cons, Path.descend]
      split at h
      next hidle => rw [if_pos hidle]; exact ih h
      next hidle =>
        rw [if_neg hidle]
        split at h
        next hup => rw [if_pos hup]; exact ih h
        next hup =>
          rw [if_neg hup]
          split at h
          · cases h
          · exact ih h

/-- An idle segment is passed where there is a directory. -/
theorem walk_cons_of_isIdle {d : Disk} {here : Location} {segment : String} {rest : List String}
    (hhere : d.hasDirectory here = true) (hidle : Path.isIdle segment = true) :
    d.walk here (segment :: rest) = d.walk here rest := by
  obtain ⟨changed, hnode⟩ := hasDirectory_iff.1 hhere
  rw [walk, hnode]
  simp [hidle]

/-- The names that lead to a node are walked to their end. -/
theorem WellFormed.walk_append {d : Disk} (hd : d.WellFormed) (here : Location)
    {names : List String} {node : Node} (h : d.node? (here ++ names) = some node) :
    d.walk here names = .ok (here ++ names) := by
  induction names generalizing here with
  | nil => simp [walk]
  | cons name rest ih =>
    obtain ⟨changed, hnode⟩ := hasDirectory_iff.1 (hd.hasDirectory_of_append (by simp) h)
    have hname : IsFileName name := hd.names _ _ h name (by simp)
    rw [walk, hnode]
    simp only [hname.1.not_isIdle, Bool.false_eq_true, if_false, if_neg hname.1.2.2.1, hname.2.2]
    have h' : d.node? (here ++ [name] ++ rest) = some node := by simpa using h
    simpa using ih _ h'

end StyleBundle.Disk
