import StyleBundle.Proofs.Cache.Damage
import StyleBundle.Settings.Load

/-!
# Settings that come from a file

A file holds data and no code, so settings that are loaded from one never ask for a hook of the
host. A file that gives no settings is reported as a fault of the settings, with a few exceptions
that are told here: bytes that are no UTF-8, a NUL in the path, and a word that its tag does not
allow.
-/

namespace StyleBundle

/-! ## Data without hooks -/

namespace Settings

/-- Whether a value is a hook. -/
def Datum.isHook : Datum → Bool
  | .hook _ => true
  | _ => false

/-- Whether a value is no collection and nothing of the host's. -/
def Datum.isSimple : Datum → Bool
  | .list _ | .set _ | .mapping _ | .hook _ | .function _ => false
  | _ => true

/-- Simple values are no hooks. -/
theorem Datum.isHook_of_isSimple {datum : Datum} (h : datum.isSimple = true) :
    datum.isHook = false := by
  cases datum <;> first | rfl | cases h

end Settings

namespace Yaml

open Settings (Datum)

variable {g : Graph} {datum : Datum} {entries : List (Datum × Datum)}

/-- Scalars are simple. -/
theorem isSimple_value {tag : Tag} {text : String} (h : Scalar.value tag text = .ok datum) :
    datum.isSimple = true := by
  have hmap {α : Type} {make : α → Datum} (hmake : ∀ a, (make a).isSimple = true)
      {result : Result α} (h : make <$> result = .ok datum) : datum.isSimple = true := by
    cases result with
    | error fault => cases h
    | ok a =>
      obtain rfl := Except.ok.inj h
      exact hmake a
  cases tag with
  | null | str =>
    obtain rfl := Except.ok.inj h
    rfl
  | bool | int | float | binary | timestamp => exact hmap (fun _ => rfl) h
  | seq | omap | pairs | map | set | merge | value | other => cases h

/-- Nodes that are no collections are simple. -/
theorem isSimple_scalar (g : Graph) (id : Nat) :
    ((g.scalar id).toOption.getD .null).isSimple = true := by
  cases hscalar : g.scalar id with
  | error fault => rfl
  | ok datum =>
    unfold Graph.scalar at hscalar
    simp only at hscalar
    split at hscalar
    · cases hscalar
    · cases hscalar
    · cases hscalar
    · cases htext : g.scalarText g.fuel id with
      | error fault =>
        rw [htext] at hscalar
        cases hscalar
      | ok text =>
        rw [htext] at hscalar
        exact isSimple_value hscalar

/-- No node is a hook. -/
theorem isHook_datum (g : Graph) (depth id : Nat) : (g.datum depth id).isHook = false := by
  have hscalar := Datum.isHook_of_isSimple (isSimple_scalar g id)
  cases depth with
  | zero =>
    unfold Graph.datum
    split
    · rfl
    · rfl
    · split
      · rfl
      · exact hscalar
  | succ depth =>
    unfold Graph.datum
    simp only
    split
    · rfl
    · rfl
    · rfl
    · split
      · rfl
      · exact hscalar
    · exact hscalar

/-- An entry has the value that is put, or that of an entry from before. -/
theorem eq_or_exists_of_mem_putEntry {key value : Datum} {entry : Datum × Datum}
    (h : entry ∈ Graph.putEntry key value entries) :
    entry.2 = value ∨ ∃ old ∈ entries, entry.2 = old.2 := by
  induction entries with
  | nil =>
    obtain rfl := List.mem_singleton.1 h
    exact .inl rfl
  | cons first rest ih =>
    obtain ⟨k, v⟩ := first
    unfold Graph.putEntry at h
    split at h
    · rcases List.mem_cons.1 h with rfl | hrest
      · exact .inl rfl
      · exact .inr ⟨entry, List.mem_cons_of_mem _ hrest, rfl⟩
    · rcases List.mem_cons.1 h with rfl | hrest
      · exact .inr ⟨_, List.mem_cons_self .., rfl⟩
      · obtain hvalue | ⟨old, hold, heq⟩ := ih hrest
        · exact .inl hvalue
        · exact .inr ⟨old, List.mem_cons_of_mem _ hold, heq⟩

/-- Entries that are put with nodes as values hold no hooks. -/
theorem isHook_of_mem_foldl_putEntry (key : Nat → Datum) {depth : Nat} {pairs : List (Nat × Nat)}
    {entry : Datum × Datum} (hbefore : ∀ old ∈ entries, old.2.isHook = false)
    (h : entry ∈ pairs.foldl
      (fun t pair => Graph.putEntry (key pair.1) (g.datum depth pair.2) t) entries) :
    entry.2.isHook = false := by
  induction pairs generalizing entries with
  | nil => exact hbefore entry h
  | cons pair rest ih =>
    refine ih (fun other hother => ?_) h
    obtain hvalue | ⟨old, hold, heq⟩ := eq_or_exists_of_mem_putEntry hother
    · rw [hvalue]
      exact isHook_datum g depth pair.2
    · rw [heq]
      exact hbefore old hold

/-- No value of a mapping is a hook. -/
theorem isHook_of_datum {depth id : Nat} (h : g.datum depth id = .mapping entries) :
    ∀ entry ∈ entries, entry.2.isHook = false := by
  have hscalar : (g.scalar id).toOption.getD .null ≠ .mapping entries := by
    intro hmapping
    have hsimple := isSimple_scalar g id
    rw [hmapping] at hsimple
    cases hsimple
  cases depth with
  | zero =>
    unfold Graph.datum at h
    split at h
    · obtain rfl := Datum.mapping.inj h
      exact fun _ hmem => absurd hmem List.not_mem_nil
    · cases h
    · split at h
      · cases h
      · exact absurd h hscalar
  | succ depth =>
    unfold Graph.datum at h
    simp only at h
    split at h
    · obtain rfl := Datum.mapping.inj h
      intro entry hmem
      exact isHook_of_mem_foldl_putEntry (fun id => (g.keyOf id).toOption.getD .null)
        (fun _ hold => absurd hold List.not_mem_nil) hmem
    · cases h
    · cases h
    · split at h
      · cases h
      · exact absurd h hscalar
    · exact absurd h hscalar

/-- No value of a mapping that a text holds is a hook. -/
theorem isHook_of_read {text : String} (h : read text = .ok (.mapping entries)) :
    ∀ entry ∈ entries, entry.2.isHook = false := by
  unfold read at h
  cases hgraph : Graph.read? text.toList with
  | error fault =>
    rw [hgraph] at h
    cases h
  | ok found =>
    rw [hgraph] at h
    cases found with
    | none => cases h
    | some g =>
      cases hcheck : g.check with
      | error fault =>
        simp [hcheck, bind, Except.bind] at h
      | ok checked =>
        simp [hcheck, bind, Except.bind, pure, Except.pure] at h
        exact isHook_of_datum h

end Yaml

/-! ## How imports are hooked -/

/-- No hook of the host is asked for. -/
def Importing.IsBuiltIn (importing : Importing) : Prop := ∀ hook, importing ≠ .custom hook

namespace Settings

/-- A value that is no hook asks for none of the host. -/
theorem isBuiltIn_of_importingOf {datum : Datum} {importing : Importing}
    (hdatum : datum.isHook = false) (h : importingOf datum = .ok importing) :
    importing.IsBuiltIn := by
  intro hook hcustom
  subst hcustom
  unfold importingOf at h
  split at h
  · cases hdatum
  · split at h <;> cases h

/-- A value under a text is a value that is given. -/
theorem exists_of_get?_textEntries {entries : List (Datum × Datum)} {key : String} {datum : Datum}
    (h : Table.get? key (textEntries entries) = some datum) :
    ∃ given ∈ entries, given.2 = datum := by
  rcases Table.mem_or_get?_of_update h with hmem | hnone
  · obtain ⟨⟨name, value⟩, hgiven, htext⟩ := List.mem_filterMap.1 hmem
    cases name with
    | text name =>
      obtain ⟨rfl, rfl⟩ := Prod.mk.inj (Option.some.inj htext)
      exact ⟨_, hgiven, rfl⟩
    | _ => cases htext
  · cases hnone

/-- A checked field has its usual value, or a value that is given passes the check. -/
theorem eq_or_exists_of_check {α : Type} {field : Field} {entries : Table String Datum}
    {otherwise value : α} {test : Datum → Checked α}
    (h : field.check entries otherwise test = .ok value) :
    value = otherwise ∨
      ∃ key datum, Table.get? key entries = some datum ∧ test datum = .ok value := by
  unfold Field.check at h
  split at h
  · exact .inl (Except.ok.inj h).symm
  next key _ =>
    split at h
    · exact .inl (Except.ok.inj h).symm
    next datum hget =>
      refine .inr ⟨key, datum, hget, ?_⟩
      cases htest : test datum with
      | ok found =>
        rw [htest] at h
        exact h
      | error violations =>
        rw [htest] at h
        cases h

/-- Settings that a mapping gives hook imports as its field says. -/
theorem importing_of_ofEntries {entries : List (Datum × Datum)} {settings : Settings}
    (h : ofEntries entries = .ok settings) :
    Field.importing.check (textEntries entries) default.importing importingOf =
      .ok settings.importing := by
  unfold ofEntries at h
  simp only at h
  split at h
  next given hgiven _ =>
    obtain rfl := Except.ok.inj h
    obtain ⟨_, -, hgiven⟩ := exists_of_bind hgiven
    obtain ⟨_, -, hgiven⟩ := exists_of_bind hgiven
    obtain ⟨importing, himporting, hgiven⟩ := exists_of_bind hgiven
    iterate 11 obtain ⟨_, -, hgiven⟩ := exists_of_bind hgiven
    obtain rfl := Except.ok.inj hgiven
    exact himporting
  · cases h

/-- Reading settings never asks for a hook of the host, as a text holds data only. -/
class Reader.IsSafe [Reader] : Prop where
  /-- The settings that a text gives hook imports in a way that is built in. -/
  isBuiltIn {text : String} {datum : Datum} {entries : List (Datum × Datum)} {settings : Settings}
    (parse_eq : Reader.parse text = .ok datum) (entries_eq : entries? datum = some entries)
    (validate_eq : Reader.validate entries = .ok settings) : settings.importing.IsBuiltIn

/-- No value of a mapping that a text holds is a hook. -/
theorem isHook_of_entries? {text : String} {datum : Datum} {entries : List (Datum × Datum)}
    (hparse : Yaml.read text = .ok datum) (hentries : entries? datum = some entries) :
    ∀ entry ∈ entries, entry.2.isHook = false := by
  unfold entries? at hentries
  split at hentries
  · obtain rfl := Option.some.inj hentries
    exact fun _ hmem => absurd hmem List.not_mem_nil
  · obtain rfl := Option.some.inj hentries
    exact Yaml.isHook_of_read hparse
  · cases hentries

/-- Reading by the grammar and checking field by field is safe. -/
instance fieldwise_isSafe : Reader.IsSafe where
  isBuiltIn hparse hentries hvalidate := by
    rcases eq_or_exists_of_check (importing_of_ofEntries hvalidate) with
      husual | ⟨key, datum, hget, hdatum⟩
    · rw [husual]
      intro hook hcustom
      cases hcustom
    · obtain ⟨entry, hentry, rfl⟩ := exists_of_get?_textEntries hget
      exact isBuiltIn_of_importingOf (isHook_of_entries? hparse hentries entry hentry) hdatum

/-! ## Loading -/

section Limited

variable [Reader] [Limits] {d : Disk} {path : String} {settings : Settings} {failure : Failure}

/-- Why loading settings from a file fails without a fault of the settings. -/
inductive Escapes (d : Disk) (path : String) : Failure → Prop
  /-- The bytes are no UTF-8, or the path holds a NUL. -/
  | text {failure : Failure} (unread : Cache.Escapes d path failure) : Escapes d path failure
  /-- Reading the text fails, but not for its syntax: a scalar is no value of its tag. -/
  | scalar {text message : String} (text_eq : d.readText path = .ok text)
      (parse_eq : Reader.parse text = .error (.value message)) : Escapes d path (.scalar message)

/-- What escapes is no fault of the settings. -/
theorem Escapes.ne_settings (h : Escapes d path failure) (fault : SettingsFault) :
    failure ≠ .settings fault := by
  rintro rfl
  rcases h with ⟨hunread⟩ | _
  cases hunread

/-- What escapes is what loading fails with. -/
theorem Escapes.load_eq (h : Escapes d path failure) : load d path = .error failure := by
  cases h with
  | text hunread =>
    have htext := hunread.readText_eq
    cases hunread <;> simp only [load, htext]
  | scalar htext hparse => simp only [load, htext, ofYaml, hparse]

/-- The settings that a file gives: it holds a mapping that keeps to the schema, or nothing, which
stands for an empty mapping. -/
inductive Gives (d : Disk) (path : String) : Settings → Prop
  /-- The entries of the file are checked. -/
  | checked {text : String} {datum : Datum} {entries : List (Datum × Datum)} {settings : Settings}
      (text_eq : d.readText path = .ok text) (parse_eq : Reader.parse text = .ok datum)
      (entries_eq : entries? datum = some entries)
      (validate_eq : Reader.validate entries = .ok settings) : Gives d path settings

/-- The fault of a file that gives no settings. -/
inductive Blames (d : Disk) (path : String) : SettingsFault → Prop
  /-- The disk refuses to read the file. -/
  | unreadable {cause : Disk.Cause}
      (text_eq : d.readText path = .error (.disk (.refused cause path))) :
      Blames d path (.unreadable path (.refused cause path))
  /-- The file holds no YAML. -/
  | notYaml {text reason : String} (text_eq : d.readText path = .ok text)
      (parse_eq : Reader.parse text = .error (.syntactic reason)) :
      Blames d path (.notYaml path reason)
  /-- The file holds something else than a mapping. -/
  | notMapping {text : String} {datum : Datum} (text_eq : d.readText path = .ok text)
      (parse_eq : Reader.parse text = .ok datum) (entries_eq : entries? datum = none) :
      Blames d path (.notMapping path)
  /-- The file holds a mapping that breaks the schema. -/
  | invalid {text : String} {datum : Datum} {entries : List (Datum × Datum)}
      {violations : List Violation} (text_eq : d.readText path = .ok text)
      (parse_eq : Reader.parse text = .ok datum) (entries_eq : entries? datum = some entries)
      (validate_eq : Reader.validate entries = .error violations) :
      Blames d path (.invalid path violations)

/-- Loading gives settings, fails with a fault of the settings, or fails with what escapes. -/
theorem load_cases (d : Disk) (path : String) :
    (∃ settings, load d path = .ok settings ∧ Gives d path settings) ∨
      (∃ fault, load d path = .error (.settings fault) ∧ Blames d path fault) ∨
        ∃ failure, Escapes d path failure := by
  cases htext : d.readText path with
  | error other =>
    rcases Cache.refused_or_escapes_of_readText htext with ⟨cause, rfl⟩ | hescapes
    · exact .inr (.inl ⟨_, by simp only [load, htext], .unreadable htext⟩)
    · exact .inr (.inr ⟨other, .text hescapes⟩)
  | ok text =>
    have hload : load d path = ofYaml path text := by simp only [load, htext]
    rw [hload, ofYaml]
    cases hparse : Reader.parse text with
    | error fault =>
      cases fault with
      | syntactic reason => exact .inr (.inl ⟨_, rfl, .notYaml htext hparse⟩)
      | value message => exact .inr (.inr ⟨_, .scalar htext hparse⟩)
    | ok datum =>
      simp only
      cases hentries : entries? datum with
      | none => exact .inr (.inl ⟨_, rfl, .notMapping htext hparse hentries⟩)
      | some entries =>
        simp only
        cases hvalidate : Reader.validate entries with
        | ok settings => exact .inl ⟨settings, rfl, .checked htext hparse hentries hvalidate⟩
        | error violations =>
          exact .inr (.inl ⟨_, rfl, .invalid htext hparse hentries hvalidate⟩)

/-- Settings that are loaded hook imports in a way that is built in. -/
theorem isBuiltIn_of_load [Reader.IsSafe] (h : load d path = .ok settings) :
    settings.importing.IsBuiltIn := by
  rcases load_cases d path with ⟨other, hload, hgives⟩ | ⟨fault, hload, -⟩ | ⟨failure, hescapes⟩
  · obtain rfl := Except.ok.inj (h.symm.trans hload)
    cases hgives with
    | checked _ hparse hentries hvalidate =>
      exact Reader.IsSafe.isBuiltIn hparse hentries hvalidate
  · cases h.symm.trans hload
  · cases h.symm.trans hescapes.load_eq

/-- Loading fails with a fault of the settings, unless it escapes. -/
theorem load_eq_error_iff : load d path = .error failure ↔
    (∃ fault, failure = .settings fault ∧ load d path = .error (.settings fault)) ∨
      Escapes d path failure := by
  constructor
  · intro h
    rcases load_cases d path with ⟨settings, hload, -⟩ | ⟨fault, hload, -⟩ | ⟨other, hescapes⟩
    · rw [h] at hload
      cases hload
    · obtain rfl := Except.error.inj (h.symm.trans hload)
      exact .inl ⟨fault, rfl, hload⟩
    · obtain rfl := Except.error.inj (h.symm.trans hescapes.load_eq)
      exact .inr hescapes
  · rintro (⟨fault, rfl, h⟩ | hescapes)
    · exact h
    · exact hescapes.load_eq

/-- Whatever library reads YAML and whatever checks it: loading ends with settings that the file
gives or with a fault that the file is to blame for, exactly where nothing escapes: where the path
holds no NUL, the bytes are UTF-8, and reading the text does not fail but for its syntax. What
escapes is what loading fails with. -/
theorem load_ends_cleanly_iff (d : Disk) (path : String) :
    (((∃ settings, load d path = .ok settings ∧ Gives d path settings) ∨
        ∃ fault, load d path = .error (.settings fault) ∧ Blames d path fault) ↔
      ¬ ∃ failure, Escapes d path failure) ∧
    ∀ failure, Escapes d path failure → load d path = .error failure := by
  refine ⟨⟨?_, fun hclean => ?_⟩, fun _ hescapes => hescapes.load_eq⟩
  · rintro (⟨settings, hload, -⟩ | ⟨fault, hload, -⟩) ⟨failure, hescapes⟩
    · rw [hescapes.load_eq] at hload
      cases hload
    · exact hescapes.ne_settings fault (Except.error.inj (hescapes.load_eq.symm.trans hload))
  · rcases load_cases d path with hgives | hblames | hescapes
    · exact .inl hgives
    · exact .inr hblames
    · exact absurd hescapes hclean

end Limited

/-- A disk with a settings file that is no UTF-8 and one with a day that no month has. -/
def faultyDisk : Disk where
  nodes := [([], .directory ⟨0⟩), (["s"], .directory ⟨0⟩),
    (["s", ".sassplugin.yaml"], .file [0xff] ⟨0⟩),
    (["s", "day.yaml"], .file (Text.Utf8.encode "data: 2001-02-30".toList) ⟨0⟩)]
  home := ["s"]
  clock := ⟨1⟩

/-- A settings file may fail to load without a fault of the settings. -/
theorem load_faultyDisk :
    load faultyDisk "/s/.sassplugin.yaml" = .error (.undecodable ⟨0xff, 0, 1, .badStart⟩) ∧
      load faultyDisk "/s/day.yaml" = .error (.scalar "day is out of range for month") := by
  have hbytes : faultyDisk.readText "/s/.sassplugin.yaml" =
      .error (.undecodable ⟨0xff, 0, 1, .badStart⟩) := by decide +kernel
  have htext : faultyDisk.readText "/s/day.yaml" = .ok "data: 2001-02-30" := by decide +kernel
  have hparse : Reader.parse "data: 2001-02-30" =
      .error (.value "day is out of range for month") := by
    have hfault : (match Reader.parse "data: 2001-02-30" with
        | .ok _ => none
        | .error fault => some fault) = some (.value "day is out of range for month") := by
      decide +kernel
    cases hday : Reader.parse "data: 2001-02-30" with
    | ok datum =>
      rw [hday] at hfault
      cases hfault
    | error fault =>
      rw [hday] at hfault
      rw [Option.some.inj hfault]
  exact ⟨by simp only [load, hbytes], (Escapes.scalar htext hparse).load_eq⟩

end Settings

end StyleBundle
