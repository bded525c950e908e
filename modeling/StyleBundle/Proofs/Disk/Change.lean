import StyleBundle.Disk.Change
import StyleBundle.Proofs.Disk.Spelling

/-!
# What changes of the disk keep

Writing a file, making directories and removing a file leave the tree well formed and all
directories in place. Files elsewhere stay as they are, and whatever is new on the disk has a stamp
from the time of the change.
-/

namespace StyleBundle.Disk

variable {d d' d'' : Disk} {location : Location} {path : String}

/-! ## Nodes after a change -/

@[simp] theorem node?_tick (d : Disk) (location : Location) :
    d.tick.node? location = d.node? location := rfl

theorem node?_set (d : Disk) (location other : Location) (node : Node) :
    (d.set location node).node? other = if other = location then some node else d.node? other := by
  unfold node? set
  by_cases h : other = location
  · subst h
    simp
  · rw [Table.get?_put_of_ne _ _ (Ne.symm h), if_neg h]

/-- The directory of a location is stamped, and everything else stays. -/
theorem node?_touchParent (d : Disk) (location other : Location) :
    (d.touchParent location).node? other = d.node? other ∨
      (d.touchParent location).node? other = some (.directory d.clock) ∧
        other = location.dropLast := by
  unfold touchParent
  split
  next => exact .inl rfl
  next =>
    rw [node?_set]
    split
    next h => exact .inr ⟨rfl, h⟩
    next => exact .inl rfl

/-- A node that is set is found. -/
theorem node?_place_self (d : Disk) (location : Location) (node : Node) :
    (d.place location node).node? location = some node := by
  unfold place
  split <;> simp [node?_set]

/-- Setting a node keeps the others, but for the directory that it stands in. -/
theorem node?_place_of_ne {other : Location} (h : other ≠ location) (node : Node) :
    (d.place location node).node? other = d.node? other ∨
      (d.place location node).node? other = some (.directory d.clock) ∧
        other = location.dropLast := by
  unfold place
  split
  next => simp [node?_set, h]
  next => simpa [node?_set, h] using node?_touchParent d location other

/-- What stands at or below an erased location is gone. -/
theorem node?_erase (d : Disk) (location other : Location) :
    (d.erase location).node? other =
      if location.isPrefixOf other then none else (d.touchParent location).node? other := by
  have h := Table.get?_filter (fun l => !location.isPrefixOf l) other (d.touchParent location).nodes
  rw [node?, erase, tick]
  by_cases hbelow : location.isPrefixOf other = true
  · rw [if_pos hbelow]
    simpa [hbelow] using h
  · rw [if_neg hbelow, node?]
    simpa [hbelow] using h

theorem home_touchParent (d : Disk) (location : Location) :
    (d.touchParent location).home = d.home := by
  unfold touchParent
  split <;> rfl

theorem clock_touchParent (d : Disk) (location : Location) :
    (d.touchParent location).clock = d.clock := by
  unfold touchParent
  split <;> rfl

/-- Setting a node takes time. -/
theorem clock_place (d : Disk) (location : Location) (node : Node) :
    (d.place location node).clock = d.clock.next := by
  unfold place
  split
  · rfl
  · exact congrArg Stamp.next (clock_touchParent d location)

/-- Removing a node takes time. -/
theorem clock_erase (d : Disk) (location : Location) :
    (d.erase location).clock = d.clock.next := congrArg Stamp.next (clock_touchParent d location)

/-- The next time is a later one. -/
theorem units_lt_next (s : Stamp) : s.units < s.next.units := by
  simpa [Stamp.isAfter] using Stamp.isAfter_next s

/-! ## Evolution -/

/-- A disk some changes later. Files are written and removed at the `changed` locations only. -/
structure Evolves (changed : Location → Prop) (d d' : Disk) : Prop where
  /-- The working directory is the same. -/
  home : d'.home = d.home
  /-- Time goes on. -/
  clock : d.clock.units ≤ d'.clock.units
  /-- Files elsewhere stay as they are, and no others come up there. -/
  files : ∀ location, ¬ changed location → ∀ bytes stamp,
    d'.node? location = some (.file bytes stamp) ↔ d.node? location = some (.file bytes stamp)
  /-- Directories stay. -/
  directories : ∀ location, d.hasDirectory location = true → d'.hasDirectory location = true
  /-- What is new has been stamped since. -/
  stamps : ∀ location node, d'.node? location = some node → d.node? location = some node ∨
    d.clock.units ≤ node.stamp.units ∧ node.stamp.units < d'.clock.units

namespace Evolves

variable {changed : Location → Prop}

theorem refl (d : Disk) : Evolves changed d d :=
  ⟨rfl, Nat.le_refl _, fun _ _ _ _ => Iff.rfl, fun _ h => h, fun _ _ h => .inl h⟩

theorem trans (h : Evolves changed d d') (h' : Evolves changed d' d'') :
    Evolves changed d d'' where
  home := h'.home.trans h.home
  clock := Nat.le_trans h.clock h'.clock
  files location hlocation bytes stamp :=
    (h'.files location hlocation bytes stamp).trans (h.files location hlocation bytes stamp)
  directories location hdirectory := h'.directories location (h.directories location hdirectory)
  stamps location node hnode := by
    have hfirst := h.clock
    have hsecond := h'.clock
    rcases h'.stamps location node hnode with hold | ⟨hlow, hhigh⟩
    · rcases h.stamps location node hold with holder | ⟨hlow, hhigh⟩
      · exact .inl holder
      · exact .inr ⟨hlow, by omega⟩
    · exact .inr ⟨by omega, hhigh⟩

/-- Fewer changes are changes at more locations. -/
theorem mono {more : Location → Prop} (h : Evolves changed d d')
    (hmore : ∀ location, changed location → more location) : Evolves more d d' :=
  ⟨h.home, h.clock, fun location hlocation => h.files location (mt (hmore location) hlocation),
    h.directories, h.stamps⟩

/-- The tree stays well formed as long as what is new has a place. -/
theorem wellFormed (h : Evolves changed d d') (hd : d.WellFormed)
    (hnew : ∀ location node, d'.node? location = some node → d.node? location = none →
      d.hasDirectory location.dropLast = true ∧ ∀ name ∈ location, IsFileName name) :
    d'.WellFormed where
  root := h.directories _ hd.root
  parent location node hnode := by
    apply h.directories
    cases hold : d.node? location with
    | none => exact (hnew location node hnode hold).1
    | some old => exact hd.parent location old hold
  names location node hnode := by
    cases hold : d.node? location with
    | none => exact (hnew location node hnode hold).2
    | some old => exact hd.names location old hold
  home := by
    rw [h.home]
    exact h.directories _ hd.home

/-- A walk through directories is the same later. -/
theorem walk (h : Evolves changed d d') {here : Location} {segments : List String}
    (hwalk : d.walk here segments = .ok location) : d'.walk here segments = .ok location := by
  induction segments generalizing here with
  | nil => exact hwalk
  | cons segment rest ih =>
    rw [Disk.walk] at hwalk ⊢
    cases hnode : d.node? here with
    | none => simp [hnode] at hwalk
    | some node =>
      cases node with
      | file bytes stamp => simp [hnode] at hwalk
      | directory stamp =>
        obtain ⟨stamp', hnode'⟩ :=
          hasDirectory_iff.1 (h.directories here (hasDirectory_iff.2 ⟨stamp, hnode⟩))
        simp only [hnode] at hwalk
        simp only [hnode']
        split
        next hidle =>
          rw [if_pos hidle] at hwalk
          exact ih hwalk
        next hidle =>
          rw [if_neg hidle] at hwalk
          split
          next hup =>
            rw [if_pos hup] at hwalk
            exact ih hwalk
          next hup =>
            rw [if_neg hup] at hwalk
            split
            next hlong => simp [hlong] at hwalk
            next hlong =>
              rw [if_neg hlong] at hwalk
              exact ih hwalk

/-- A path leads to the same location later. -/
theorem locate [Limits] (h : Evolves changed d d') (hlocate : d.locate path = .ok location) :
    d'.locate path = .ok location := by
  obtain ⟨hnul, hempty, hfits, hwalk⟩ := locate_eq_ok_iff.1 hlocate
  refine locate_eq_ok_iff.2 ⟨hnul, hempty, hfits, ?_⟩
  have hstart : d'.start path = d.start path := by rw [start, start, h.home]
  rw [hstart]
  exact h.walk hwalk

end Evolves

/-- A file is found later as it was, as long as it does not stand at the changed location. -/
theorem Evolves.find_file_of_ne [Limits] (h : Evolves (· = location) d d')
    (hne : d.lexical path ≠ location) {bytes : List UInt8} {stamp : Stamp}
    (hfind : d.find path = .ok (.file bytes stamp)) : d'.find path = .ok (.file bytes stamp) := by
  obtain ⟨other, hlocate, hnode⟩ := find_eq_ok_iff.1 hfind
  obtain rfl := eq_lexical_of_locate hlocate
  exact find_eq_ok_iff.2 ⟨_, h.locate hlocate, (h.files _ hne bytes stamp).2 hnode⟩

/-- A file is found later as it was, as long as nothing has stood at the changed location. -/
theorem Evolves.find_file [Limits] (h : Evolves (· = location) d d')
    (hnone : d.node? location = none) {bytes : List UInt8} {stamp : Stamp}
    (hfind : d.find path = .ok (.file bytes stamp)) :
    d'.find path = .ok (.file bytes stamp) := by
  apply h.find_file_of_ne _ hfind
  obtain ⟨other, hlocate, hnode⟩ := find_eq_ok_iff.1 hfind
  rintro rfl
  rw [eq_lexical_of_locate hlocate, hnone] at hnode
  cases hnode

/-! ## Single changes -/

/-- Setting a node where there is none, or one of its kind, changes that location only. -/
theorem evolves_place {node : Node} (hparent : d.hasDirectory location.dropLast = true)
    (hkind : ∀ old, d.node? location = some old → old.isFile = node.isFile)
    (hstamp : node.stamp = d.clock) : Evolves (· = location) d (d.place location node) where
  home := by
    unfold place
    split
    · rfl
    · exact home_touchParent d location
  clock := by
    have hnext := units_lt_next d.clock
    rw [clock_place]
    omega
  files other hother bytes stamp := by
    rcases node?_place_of_ne hother node with h | ⟨h, rfl⟩
    · rw [h]
    · obtain ⟨old, hold⟩ := hasDirectory_iff.1 hparent
      simp [h, hold]
  directories other hdirectory := by
    by_cases hother : other = location
    · subst hother
      obtain ⟨stamp, hold⟩ := hasDirectory_iff.1 hdirectory
      have hnode : node.isFile = false := (hkind _ hold).symm
      simp [hasDirectory, node?_place_self, hnode]
    · rcases node?_place_of_ne hother node with h | ⟨h, -⟩
      · rwa [hasDirectory, h]
      · exact hasDirectory_iff.2 ⟨_, h⟩
  stamps other new hnew := by
    have hclock := units_lt_next d.clock
    rw [clock_place]
    by_cases hother : other = location
    · subst hother
      obtain rfl : node = new := by simpa [node?_place_self] using hnew
      rw [hstamp]
      exact .inr ⟨Nat.le_refl _, hclock⟩
    · rcases node?_place_of_ne hother node with h | ⟨h, -⟩
      · exact .inl (h ▸ hnew)
      · obtain rfl : Node.directory d.clock = new := by simpa [h] using hnew
        exact .inr ⟨Nat.le_refl _, hclock⟩

/-- Setting a node with a proper name in a directory keeps the tree well formed. -/
theorem WellFormed.place (hd : d.WellFormed) {node : Node}
    (hparent : d.hasDirectory location.dropLast = true)
    (hnames : ∀ name ∈ location, IsFileName name)
    (hkind : ∀ old, d.node? location = some old → old.isFile = node.isFile)
    (hstamp : node.stamp = d.clock) : (d.place location node).WellFormed := by
  apply (evolves_place hparent hkind hstamp).wellFormed hd
  intro other new hnew hnone
  by_cases hother : other = location
  · exact hother ▸ ⟨hparent, hnames⟩
  · rcases node?_place_of_ne hother node with h | ⟨-, rfl⟩
    · rw [h, hnone] at hnew
      cases hnew
    · obtain ⟨stamp, hold⟩ := hasDirectory_iff.1 hparent
      simp [hold] at hnone

/-- Nothing stands below a file. -/
theorem WellFormed.eq_of_isPrefixOf (hd : d.WellFormed) {bytes : List UInt8} {stamp : Stamp}
    (hfile : d.node? location = some (.file bytes stamp)) {other : Location} {node : Node}
    (hnode : d.node? other = some node) (hbelow : location.isPrefixOf other = true) :
    other = location := by
  obtain ⟨names, rfl⟩ := List.isPrefixOf_iff_prefix.1 hbelow
  by_cases hnames : names = []
  · simp [hnames]
  · obtain ⟨stamp', hdirectory⟩ := hasDirectory_iff.1 (hd.hasDirectory_of_append hnames hnode)
    simp [hfile] at hdirectory

/-- Removing a file changes its location only. -/
theorem WellFormed.evolves_erase (hd : d.WellFormed) {bytes : List UInt8} {stamp : Stamp}
    (hfile : d.node? location = some (.file bytes stamp)) :
    Evolves (· = location) d (d.erase location) := by
  have hparent := hd.parent _ _ hfile
  have hclock := units_lt_next d.clock
  rw [← clock_erase d location] at hclock
  have hother (other : Location) (node : Node) (hnode : d.node? other = some node)
      (hne : other ≠ location) :
      (d.erase location).node? other = (d.touchParent location).node? other := by
    rw [node?_erase, if_neg]
    exact fun hbelow => hne (hd.eq_of_isPrefixOf hfile hnode hbelow)
  refine ⟨home_touchParent d location, Nat.le_of_lt hclock, ?_, ?_, ?_⟩
  · intro other hne bytes' stamp'
    constructor
    · intro hnew
      rw [node?_erase] at hnew
      split at hnew
      · cases hnew
      · rcases node?_touchParent d location other with h | ⟨h, -⟩
        · exact h ▸ hnew
        · simp [h] at hnew
    · intro hold
      rw [hother other _ hold hne]
      rcases node?_touchParent d location other with h | ⟨h, rfl⟩
      · rwa [h]
      · obtain ⟨stamp'', hdirectory⟩ := hasDirectory_iff.1 hparent
        simp [hold] at hdirectory
  · intro other hdirectory
    obtain ⟨stamp', hold⟩ := hasDirectory_iff.1 hdirectory
    have hne : other ≠ location := by
      rintro rfl
      simp [hfile] at hold
    rw [hasDirectory, hother other _ hold hne, ← hasDirectory]
    rcases node?_touchParent d location other with h | ⟨h, -⟩
    · rwa [hasDirectory, h]
    · exact hasDirectory_iff.2 ⟨_, h⟩
  · intro other node hnew
    rw [node?_erase] at hnew
    split at hnew
    · cases hnew
    · rcases node?_touchParent d location other with h | ⟨h, -⟩
      · exact .inl (h ▸ hnew)
      · obtain rfl : Node.directory d.clock = node := by simpa [h] using hnew
        exact .inr ⟨Nat.le_refl _, hclock⟩

/-- Removing a file keeps the tree well formed. -/
theorem WellFormed.erase (hd : d.WellFormed) {bytes : List UInt8} {stamp : Stamp}
    (hfile : d.node? location = some (.file bytes stamp)) : (d.erase location).WellFormed := by
  apply (hd.evolves_erase hfile).wellFormed hd
  intro other node hnew hnone
  rw [node?_erase] at hnew
  split at hnew
  · cases hnew
  · rcases node?_touchParent d location other with h | ⟨-, rfl⟩
    · rw [h, hnone] at hnew
      cases hnew
    · obtain ⟨stamp', hold⟩ := hasDirectory_iff.1 (hd.parent _ _ hfile)
      simp [hold] at hnone

/-- The time of day does not matter to a walk. -/
theorem walk_clock (d : Disk) (clock : Stamp) (here : Location) (segments : List String) :
    { d with clock }.walk here segments = d.walk here segments := by
  induction segments generalizing here with
  | nil => rfl
  | cons segment rest ih =>
    have hnode : { d with clock }.node? here = d.node? here := rfl
    simp only [walk, hnode, ih]

/-- What is found does not depend on the time of day. -/
theorem find_clock [Limits] (d : Disk) (clock : Stamp) (path : String) :
    { d with clock }.find path = d.find path := by
  have hnode (location : Location) : { d with clock }.node? location = d.node? location := rfl
  have hlocate : { d with clock }.locate path = d.locate path := by
    unfold locate
    simp only [walk_clock]
  simp only [find, hlocate, hnode]

/-! ## Changes by path -/

/-- A walk from a place in the tree arrives at a place in the tree, though maybe at an empty one. -/
theorem WellFormed.hasDirectory_of_walk (hd : d.WellFormed) {here : Location}
    {segments : List String} (hhere : d.hasDirectory here.dropLast = true)
    (hnames : ∀ name ∈ here, IsFileName name)
    (hsegments : ∀ segment ∈ segments, '/' ∉ segment.toList ∧ '\x00' ∉ segment.toList)
    (hwalk : d.walk here segments = .ok location) :
    d.hasDirectory location.dropLast = true ∧ ∀ name ∈ location, IsFileName name := by
  induction segments generalizing here with
  | nil =>
    obtain rfl : here = location := by simpa [walk] using hwalk
    exact ⟨hhere, hnames⟩
  | cons segment rest ih =>
    have hrest := fun s hs => hsegments s (List.mem_cons_of_mem _ hs)
    rw [walk] at hwalk
    split at hwalk
    · cases hwalk
    · cases hwalk
    next stamp hnode =>
      have hdirectory : d.hasDirectory here = true := hasDirectory_iff.2 ⟨_, hnode⟩
      split at hwalk
      next => exact ih hhere hnames hrest hwalk
      next hidle =>
        split at hwalk
        next =>
          obtain ⟨stamp', habove⟩ := hasDirectory_iff.1 hhere
          exact ih (hd.parent _ _ habove)
            (fun name hname => hnames name (List.dropLast_subset here hname)) hrest hwalk
        next hup =>
          split at hwalk
          · cases hwalk
          next hlong =>
            refine ih (by rwa [List.dropLast_concat]) ?_ hrest hwalk
            intro name hname
            rcases List.mem_append.1 hname with hname | hname
            · exact hnames name hname
            · obtain rfl := List.mem_singleton.1 hname
              obtain ⟨hslash, hnul⟩ := hsegments name (List.mem_cons_self ..)
              simp only [Path.isIdle, Bool.or_eq_true, beq_iff_eq, not_or] at hidle
              exact ⟨⟨hidle.1, hidle.2, hup, hslash⟩, hnul, by simpa using hlong⟩

/-- An operation that changes nothing when it fails leads to the disk that it gives, or to the same.
-/
theorem eq_ok_or_disk_attempt (d : Disk) (result : Except Fault Disk) :
    result = .ok (d.attempt result).disk ∨ (d.attempt result).disk = d := by
  cases result with
  | ok d' => exact .inl rfl
  | error fault => exact .inr rfl

theorem result_attempt (d : Disk) (result : Except Fault Disk) :
    (d.attempt result).result = result := by
  cases result <;> rfl

theorem Attempt.disk_of_result {a : Attempt} (h : a.result = .ok d') : a.disk = d' := by
  unfold Attempt.result at h
  split at h
  · exact Except.ok.inj h
  · cases h

variable [Limits]

/-- A path leads to a place in the tree, though maybe to an empty one. -/
theorem WellFormed.hasDirectory_of_locate (hd : d.WellFormed)
    (hlocate : d.locate path = .ok location) :
    d.hasDirectory location.dropLast = true ∧ ∀ name ∈ location, IsFileName name := by
  obtain ⟨hnul, -, -, hwalk⟩ := locate_eq_ok_iff.1 hlocate
  have hsegments : ∀ segment ∈ Path.segments path,
      '/' ∉ segment.toList ∧ '\x00' ∉ segment.toList := by
    intro segment hsegment
    exact ⟨Path.not_mem_of_mem_segments hsegment,
      fun h => hnul (Path.mem_of_mem_segments hsegment h)⟩
  refine hd.hasDirectory_of_walk ?_ ?_ hsegments hwalk
  · unfold start
    split
    · exact hd.root
    · obtain ⟨stamp, hnode⟩ := hasDirectory_iff.1 hd.home
      exact hd.parent _ _ hnode
  · unfold start
    split
    · simp
    · exact hd.home_names

/-- Making a directory changes no file. -/
theorem WellFormed.makeDirectory (hd : d.WellFormed) (h : d.makeDirectory path = .ok d') :
    Evolves (fun _ => False) d d' ∧ d'.WellFormed := by
  unfold Disk.makeDirectory at h
  split at h
  · cases h
  · cases h
  next location hlocate =>
    split at h
    · cases h
    next hnone =>
      obtain rfl := Except.ok.inj h
      obtain ⟨hparent, hnames⟩ := hd.hasDirectory_of_locate hlocate
      have hkind : ∀ old, d.node? location = some old →
          old.isFile = (Node.directory d.clock).isFile := by
        intro old hold
        simp [hold] at hnone
      have hplace := evolves_place hparent hkind rfl
      refine ⟨⟨hplace.home, hplace.clock, ?_, hplace.directories, hplace.stamps⟩,
        hd.place hparent hnames hkind rfl⟩
      intro other _ bytes stamp
      by_cases hother : other = location
      · subst hother
        have hempty : d.node? other = none := by simpa using hnone
        simp [node?_place_self, hempty]
      · exact hplace.files other hother bytes stamp

/-- A fault that is no fault where a directory stands changes nothing either way. -/
theorem disk_attempt_unlessDirectory (d : Disk) (path : String) (fault : Fault) :
    (d.attempt (d.unlessDirectory path fault)).disk = d := by
  unfold unlessDirectory
  split <;> rfl

theorem makeDirectories_eq (d : Disk) (path : String) :
    d.makeDirectories path = d.makeDirectoriesWithin path ((Path.names path).length + 1) := rfl

theorem makeDirectoriesWithin_zero (d : Disk) (path : String) :
    d.makeDirectoriesWithin path 0 = d.makeDirectory path := result_attempt d _

/-- Making directories step by step: the upper ones are made first where something is missing. -/
theorem makeDirectoriesWithin_succ (d : Disk) (path : String) (depth : Nat) :
    d.makeDirectoriesWithin path (depth + 1) =
      match d.makeDirectory path with
      | .ok d => .ok d
      | .error (.refused .missing p) =>
        if Path.parent path = path then .error (.refused .missing p)
        else
          match d.makeDirectoriesWithin (Path.parent path) depth with
          | .error fault => .error fault
          | .ok d =>
            match d.makeDirectory path with
            | .ok d => .ok d
            | .error (.refused .missing p) => .error (.refused .missing p)
            | .error fault => d.unlessDirectory path fault
      | .error fault => d.unlessDirectory path fault := by
  rw [makeDirectoriesWithin, attemptDirectoriesWithin]
  cases d.makeDirectory path with
  | ok made => rfl
  | error fault =>
    cases fault with
    | refused cause p =>
      cases cause
      case missing =>
        simp only
        split
        · rfl
        · rw [makeDirectoriesWithin]
          rcases d.attemptDirectoriesWithin (Path.parent path) depth with ⟨_ | fault, above⟩
          · simp only [Attempt.result]
            cases above.makeDirectory path with
            | ok made => rfl
            | error fault =>
              cases fault with
              | refused cause p => cases cause <;> first | rfl | exact result_attempt above _
              | _ => exact result_attempt above _
          · rfl
      all_goals exact result_attempt d _
    | _ => exact result_attempt d _

/-- Trying to make directories changes no file, whether all of them are made or not. -/
theorem WellFormed.attemptDirectoriesWithin (hd : d.WellFormed) (path : String) (depth : Nat) :
    Evolves (fun _ => False) d (d.attemptDirectoriesWithin path depth).disk ∧
      (d.attemptDirectoriesWithin path depth).disk.WellFormed := by
  induction depth generalizing path with
  | zero =>
    rw [Disk.attemptDirectoriesWithin]
    rcases eq_ok_or_disk_attempt d (d.makeDirectory path) with hmade | hkept
    · exact hd.makeDirectory hmade
    · rw [hkept]
      exact ⟨.refl d, hd⟩
  | succ depth ih =>
    rw [Disk.attemptDirectoriesWithin]
    split
    next made hmade => exact hd.makeDirectory hmade
    next =>
      split
      · exact ⟨.refl d, hd⟩
      · have hfirst := ih (Path.parent path)
        split
        next fault above habove => rwa [habove] at hfirst
        next above habove =>
          rw [habove] at hfirst
          obtain ⟨hmaking, hwell⟩ := hfirst
          split
          next made hmade =>
            obtain ⟨hsecond, hwell'⟩ := hwell.makeDirectory hmade
            exact ⟨hmaking.trans hsecond, hwell'⟩
          next => exact ⟨hmaking, hwell⟩
          next =>
            rw [disk_attempt_unlessDirectory]
            exact ⟨hmaking, hwell⟩
    next =>
      rw [disk_attempt_unlessDirectory]
      exact ⟨.refl d, hd⟩

theorem WellFormed.attemptDirectories (hd : d.WellFormed) (path : String) :
    Evolves (fun _ => False) d (d.attemptDirectories path).disk ∧
      (d.attemptDirectories path).disk.WellFormed :=
  hd.attemptDirectoriesWithin path _

/-- Making directories changes no file. -/
theorem WellFormed.makeDirectoriesWithin (hd : d.WellFormed) {depth : Nat}
    (h : d.makeDirectoriesWithin path depth = .ok d') :
    Evolves (fun _ => False) d d' ∧ d'.WellFormed := by
  rw [← Attempt.disk_of_result h]
  exact hd.attemptDirectoriesWithin path depth

/-- Writing a file changes the location that its path leads to, and puts the bytes there with the
time of the write. -/
theorem WellFormed.writeBytes (hd : d.WellFormed) {bytes : List UInt8}
    (h : d.writeBytes path bytes = .ok d') : ∃ location, d.locate path = .ok location ∧
      Evolves (· = location) d d' ∧ d'.WellFormed ∧
      d'.node? location = some (.file bytes d.clock) ∧ d'.clock = d.clock.next := by
  unfold Disk.writeBytes at h
  split at h
  · cases h
  next location hlocate =>
    split at h
    · cases h
    next hfile =>
      obtain rfl := Except.ok.inj h
      obtain ⟨hparent, hnames⟩ := hd.hasDirectory_of_locate hlocate
      have hkind : ∀ old, d.node? location = some old →
          old.isFile = (Node.file bytes d.clock).isFile := by
        intro old hold
        cases old with
        | directory stamp => exact absurd hold (hfile stamp)
        | file => rfl
      exact ⟨location, hlocate, evolves_place hparent hkind rfl, hd.place hparent hnames hkind rfl,
        node?_place_self .., clock_place ..⟩

end StyleBundle.Disk
