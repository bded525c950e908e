import StyleBundle.Compile.Engine
import StyleBundle.Proofs.Dependency.Closure

/-!
# The walk and a reader behind the engine

The engine asks an import hook through an adapter: an answer sends it to a file, gives it a text to
read, or leaves the import to it. The walk interprets the same answers by itself. This module
compares the walk with a reader that does what the adapter says. They agree on answers that give no
text and are no bare addresses: the walk passes on addresses, and it never reads a given text.
-/

namespace StyleBundle.Dependency

variable {d : Disk} {s : Search} {heeds : Option Import.Target → Prop} {entry text : String}

/-! ## The reader -/

/-- What the hook says about a target. A search without a hook has nothing to say. -/
def Answers (d : Disk) (s : Search) (origin target : String) (answer : Option Import.Target) :
    Prop :=
  match s.hook with
  | none => answer = none
  | some hook => hook.answer 0 d target origin = .ok answer

/-- The target that the reader looks up for what the adapter makes of an answer, unless it is given
a text. -/
def soughtFor (target : String) : Adapted → Option String
  | .unchanged => some target
  | .file path => some path
  | .text .. => none

/-- The reader is sent from a file to a path, by an answer that it heeds. -/
def Sends (d : Disk) (s : Search) (heeds : Option Import.Target → Prop)
    (origin target path : String) : Prop :=
  isExternal target = false ∧ ∃ answer, Answers d s origin target answer ∧ heeds answer ∧
    ∃ sought, soughtFor target (Adapted.ofAnswer target answer) = some sought ∧
      resolve d s origin sought = some path

/-- The reader is given a text under a name, by an answer that it heeds. -/
def Gives (d : Disk) (s : Search) (heeds : Option Import.Target → Prop)
    (origin target name given : String) : Prop :=
  isExternal target = false ∧ ∃ answer, Answers d s origin target answer ∧ heeds answer ∧
    Adapted.ofAnswer target answer = .text name given

/-- A text that the reader reads, and where it stands: the text of the entry, those of the files to
which it is sent, and those that it is given. Back in the entry it reads the same text again. -/
inductive Reads (d : Disk) (s : Search) (heeds : Option Import.Target → Prop)
    (entry text : String) : (origin content : String) → Prop
  /-- The reader begins with the entry. -/
  | entry : Reads d s heeds entry text entry text
  /-- It reads a file to which it is sent. -/
  | file {origin content path inside : String} {statement : Import.Statement}
      (hread : Reads d s heeds entry text origin content)
      (hstatement : statement ∈ Import.statements content)
      (hsends : Sends d s heeds origin statement.target path)
      (hcontent : contentOf d entry text path = .ok inside) : Reads d s heeds entry text path inside
  /-- It reads a text that it is given. -/
  | given {origin content name given : String} {statement : Import.Statement}
      (hread : Reads d s heeds entry text origin content)
      (hstatement : statement ∈ Import.statements content)
      (hgives : Gives d s heeds origin statement.target name given) :
      Reads d s heeds entry text name given

/-- A file that the reader opens, whether it holds text or not. -/
def Opens (d : Disk) (s : Search) (heeds : Option Import.Target → Prop)
    (entry text path : String) : Prop :=
  ∃ origin content, Reads d s heeds entry text origin content ∧
    ∃ statement ∈ Import.statements content, Sends d s heeds origin statement.target path

/-! ## Answers on which the two agree -/

/-- An answer that gives no text and is no bare address. -/
def IsPlain (answer : Option Import.Target) : Prop :=
  ∀ target, answer = some target →
    target.contents = none ∧ (target.file.getD "" = "" → target.url.getD "" = "")

/-- The adapter and the walk make the same of a plain answer. -/
theorem soughtFor_ofAnswer {answer : Option Import.Target} (h : IsPlain answer) (target : String) :
    soughtFor target (Adapted.ofAnswer target answer) = redirect target answer := by
  cases answer with
  | none => rfl
  | some found =>
    obtain ⟨file, url, contents⟩ := found
    obtain ⟨hcontents, hurl⟩ := h _ rfl
    obtain rfl : contents = none := hcontents
    cases file with
    | none =>
      have hbare : url.getD "" = "" := hurl rfl
      simp [Adapted.ofAnswer, soughtFor, redirect, hbare]
    | some path =>
      by_cases hpath : path = ""
      · have hbare : url.getD "" = "" := hurl hpath
        simp [Adapted.ofAnswer, soughtFor, redirect, hpath, hbare]
      · simp [Adapted.ofAnswer, soughtFor, redirect, hpath]

/-- Without a text, an answer that the walk does not pass on is plain. -/
theorem isPlain_of_redirect {answer : Option Import.Target} {target sought : String}
    (hcontents : ∀ found, answer = some found → found.contents = none)
    (h : redirect target answer = some sought) : IsPlain answer := by
  rintro found rfl
  refine ⟨hcontents found rfl, ?_⟩
  intro hfile
  by_contra hurl
  simp [redirect, hfile, hurl] at h

/-- What the walk looks up for a target is what it makes of the hook's answer. -/
theorem redirects_iff {origin target sought : String} : Redirects d s origin target sought ↔
    ∃ answer, Answers d s origin target answer ∧ redirect target answer = some sought := by
  unfold Redirects Answers
  cases s.hook with
  | none =>
    constructor
    · rintro rfl
      exact ⟨none, rfl, rfl⟩
    · rintro ⟨answer, rfl, hsought⟩
      exact (Option.some.inj hsought).symm
  | some hook => exact Iff.rfl

/-- Where a plain answer sends the reader, the walk is led too. -/
theorem leads_of_sends {origin target path : String} (h : Sends d s IsPlain origin target path) :
    Leads d s origin target path := by
  obtain ⟨hexternal, answer, hanswer, hplain, sought, hsought, hpath⟩ := h
  rw [soughtFor_ofAnswer hplain] at hsought
  exact ⟨hexternal, sought, redirects_iff.2 ⟨answer, hanswer, hsought⟩, hpath⟩

/-- Where the walk is led, a plain answer sends the reader too, if the hook gives no texts. -/
theorem sends_of_leads (hcontents : ∀ origin target found,
      Answers d s origin target (some found) → found.contents = none)
    {origin target path : String} (h : Leads d s origin target path) :
    Sends d s IsPlain origin target path := by
  obtain ⟨hexternal, sought, hredirects, hpath⟩ := h
  obtain ⟨answer, hanswer, hsought⟩ := redirects_iff.1 hredirects
  have hplain : IsPlain answer := by
    apply isPlain_of_redirect _ hsought
    rintro found rfl
    exact hcontents origin target found hanswer
  rw [← soughtFor_ofAnswer hplain] at hsought
  exact ⟨hexternal, answer, hanswer, hplain, sought, hsought, hpath⟩

/-- A plain answer gives no text. -/
theorem not_gives_of_isPlain {origin target name given : String} :
    ¬ Gives d s IsPlain origin target name given := by
  rintro ⟨-, answer, -, hplain, htext⟩
  cases answer with
  | none => cases htext
  | some found =>
    obtain ⟨hcontents, -⟩ := hplain found rfl
    simp only [Adapted.ofAnswer, hcontents] at htext
    split at htext
    · split at htext
      · cases htext
      · cases htext
    · cases htext

/-! ## The reader against the list -/

/-- What the reader reads through plain answers stands in what the entry reaches. -/
theorem reaches_of_reads {origin content : String}
    (h : Reads d s IsPlain entry text origin content) :
    Reaches d s entry text origin ∧ contentOf d entry text origin = .ok content := by
  induction h with
  | entry => exact ⟨.refl, by simp [contentOf]⟩
  | file _ hstatement hsends hcontent ih =>
    obtain ⟨hreach, hinside⟩ := ih
    exact ⟨hreach.tail ⟨_, hinside, _, hstatement, leads_of_sends hsends⟩, hcontent⟩
  | given _ _ hgives _ => exact absurd hgives not_gives_of_isPlain

/-- A file that the reader opens through plain answers is reached. -/
theorem reaches_of_opens {path : String} (h : Opens d s IsPlain entry text path) :
    Reaches d s entry text path := by
  obtain ⟨origin, content, hread, statement, hstatement, hsends⟩ := h
  obtain ⟨hreach, hcontent⟩ := reaches_of_reads hread
  exact hreach.tail ⟨content, hcontent, statement, hstatement, leads_of_sends hsends⟩

/-- What is reached is read through plain answers, if the hook gives no texts. -/
theorem reads_of_reaches (hcontents : ∀ origin target found,
      Answers d s origin target (some found) → found.contents = none)
    {origin content : String} (h : Reaches d s entry text origin)
    (hcontent : contentOf d entry text origin = .ok content) :
    Reads d s IsPlain entry text origin content := by
  induction h generalizing content with
  | refl =>
    obtain rfl : text = content := by simpa [contentOf] using hcontent
    exact .entry
  | tail _ himports ih =>
    obtain ⟨inside, hinside, statement, hstatement, hleads⟩ := himports
    exact .file (ih hinside) hstatement (sends_of_leads hcontents hleads) hcontent

/-- A file that is reached from another one is opened through plain answers, if the hook gives no
texts. -/
theorem opens_of_reaches (hcontents : ∀ origin target found,
      Answers d s origin target (some found) → found.contents = none)
    {path : String} (h : Reaches d s entry text path) (hne : path ≠ entry) :
    Opens d s IsPlain entry text path := by
  rcases h.cases_tail with rfl | ⟨origin, hreach, content, hcontent, statement, hstatement, hleads⟩
  · exact absurd rfl hne
  · exact ⟨origin, content, reads_of_reaches hcontents hreach hcontent, statement, hstatement,
      sends_of_leads hcontents hleads⟩

/-- The list of the walk holds every file, besides the entry, that the reader opens through answers
that give no text and are no bare addresses, whatever else the hook answers. If it gives no texts at
all, the list holds exactly these files. And there is a list wherever the files that are reached
hold text. -/
theorem mem_dependencies_of_opens (hd : d.WellFormed) (hs : s.IsSteady d) (entry text : String) :
    ((∀ path, Reaches d s entry text path → path ≠ entry →
        ∃ content, d.readText path = .ok content) →
      ∃ found, dependencies d s entry text = .ok found) ∧
    ∀ found, dependencies d s entry text = .ok found →
      (∀ path, path ≠ entry → Opens d s IsPlain entry text path → path ∈ found) ∧
      ((∀ origin target answer, Answers d s origin target (some answer) →
          answer.contents = none) →
        ∀ path, path ∈ found ↔ path ≠ entry ∧ Opens d s IsPlain entry text path) := by
  constructor
  · intro htext
    obtain ⟨found, hfound, -⟩ := exists_dependencies_discovery hd hs htext
    exact ⟨found, hfound⟩
  · intro found hfound
    have hlisted := mem_dependencies_iff hd hs hfound
    constructor
    · intro path hne hopens
      exact (hlisted path).2 ⟨hne, reaches_of_opens hopens⟩
    · intro hcontents path
      constructor
      · intro hmem
        obtain ⟨hne, hreach⟩ := (hlisted path).1 hmem
        exact ⟨hne, opens_of_reaches hcontents hreach hne⟩
      · rintro ⟨hne, hopens⟩
        exact (hlisted path).2 ⟨hne, reaches_of_opens hopens⟩

/-- The search of the ring with a hook that looks at the target only. -/
def ringSearch (answer : String → Option Import.Target) : Search :=
  { plainSearch with paths := ["/s"], hook := some ⟨fun _ _ target _ => .ok (answer target)⟩ }

theorem isSteady_ringSearch (answer : String → Option Import.Target) :
    (ringSearch answer).IsSteady d := by
  intro hook hhook target origin
  obtain rfl := Option.some.inj hhook
  exact ⟨answer target, fun _ => rfl⟩

theorem answers_ringSearch_iff {answer : String → Option Import.Target} {origin target : String}
    {found : Option Import.Target} :
    Answers d (ringSearch answer) origin target found ↔ answer target = found := by
  constructor
  · exact fun h => Except.ok.inj h
  · rintro rfl
    rfl

/-- A hook that sends every target to one file. -/
def redirected (_target : String) : Option Import.Target := some ⟨some "a", none, none⟩

theorem statements_v : Import.statements "@import 'v';" = [⟨"@import 'v';", "v"⟩] :=
  Import.statements_of_parse? [] (by decide) (by decide) (by decide)

/-- Where the hook redirects the only import of a text, both follow it. -/
theorem mem_dependencies_of_opens_ring : ring.WellFormed ∧
    (ringSearch redirected).IsSteady ring ∧ ∃ found,
      dependencies ring (ringSearch redirected) "/s/main.scss" "@import 'v';" = .ok found ∧
      Opens ring (ringSearch redirected) IsPlain "/s/main.scss" "@import 'v';" "/s/a.scss" ∧
      "/s/a.scss" ∈ found := by
  have hsteady : (ringSearch redirected).IsSteady ring := isSteady_ringSearch _
  have hplain : IsPlain (redirected "v") := by
    rintro target ⟨⟩
    exact ⟨rfl, by decide⟩
  have hsends : Sends ring (ringSearch redirected) IsPlain "/s/main.scss" "v" "/s/a.scss" :=
    ⟨by decide, _, answers_ringSearch_iff.2 rfl, hplain, "a", rfl, by decide +kernel⟩
  have hopens : Opens ring (ringSearch redirected) IsPlain "/s/main.scss" "@import 'v';"
      "/s/a.scss" := ⟨"/s/main.scss", "@import 'v';", .entry, ⟨"@import 'v';", "v"⟩,
    by rw [statements_v]; exact List.mem_singleton_self _, hsends⟩
  obtain ⟨htotal, hlisted⟩ :=
    mem_dependencies_of_opens wellFormed_ring hsteady "/s/main.scss" "@import 'v';"
  obtain ⟨found, hfound⟩ := htotal fun _ => exists_text_ring
  exact ⟨wellFormed_ring, hsteady, found, hfound, hopens,
    (hlisted found hfound).1 "/s/a.scss" (by decide) hopens⟩

/-! ## Where the two part -/

/-- A hook that gives a text for one target, and has nothing to say about the others. -/
def givenText (target : String) : Option Import.Target :=
  if target = "v" then some ⟨none, none, some "@import 'a';"⟩ else none

/-- A hook that passes every target on as an address. -/
def address (target : String) : Option Import.Target := some ⟨none, some target, none⟩

/-- A text whose only import leads nowhere has no dependencies. -/
theorem dependencies_eq_nil (hd : d.WellFormed) (hs : s.IsSteady d) {statement : Import.Statement}
    (htext : Import.statements text = [statement])
    (hnowhere : ∀ path, ¬ Leads d s entry statement.target path) :
    dependencies d s entry text = .ok [] := by
  refine dependencies_of_discovery hd hs ?_
  rw [references, htext]
  exact .skip (fun path hleads => absurd hleads (hnowhere path)) .done

/-- The only import of the text that the hook gives leads to a file, but the walk looks for the
target that the hook has answered, and does not find it. -/
theorem exists_unlisted_file_of_text :
    dependencies ring (ringSearch givenText) "/s/main.scss" "@import 'v';" = .ok [] ∧
      Opens ring (ringSearch givenText) (fun _ => True) "/s/main.scss" "@import 'v';"
        "/s/a.scss" := by
  have hgives : Gives ring (ringSearch givenText) (fun _ => True) "/s/main.scss" "v" "v"
      "@import 'a';" := ⟨by decide, _, answers_ringSearch_iff.2 rfl, trivial, rfl⟩
  have hread : Reads ring (ringSearch givenText) (fun _ => True) "/s/main.scss" "@import 'v';" "v"
      "@import 'a';" := .given .entry (by rw [statements_v]; exact List.mem_singleton_self _) hgives
  have hsends : Sends ring (ringSearch givenText) (fun _ => True) "v" "a" "/s/a.scss" :=
    ⟨by decide, none, answers_ringSearch_iff.2 rfl, trivial, "a", rfl, by decide +kernel⟩
  constructor
  · apply dependencies_eq_nil wellFormed_ring (isSteady_ringSearch _) statements_v
    rintro path ⟨-, sought, hredirects, hpath⟩
    obtain ⟨answer, hanswer, hsought⟩ := redirects_iff.1 hredirects
    obtain rfl := answers_ringSearch_iff.1 hanswer
    obtain rfl : "v" = sought := Option.some.inj hsought
    have hnone : resolve ring (ringSearch givenText) "/s/main.scss" "v" = none := by
      decide +kernel
    rw [hnone] at hpath
    cases hpath
  · exact ⟨"v", "@import 'a';", hread, ⟨"@import 'a';", "a"⟩,
      by rw [statements_single]; exact List.mem_singleton_self _, hsends⟩

/-- The walk passes on the target of an address, which the reader looks up. -/
theorem exists_unlisted_file_of_address :
    dependencies ring (ringSearch address) "/s/main.scss" "@import 'a';" = .ok [] ∧
      Opens ring (ringSearch address) (fun _ => True) "/s/main.scss" "@import 'a';"
        "/s/a.scss" := by
  have hsends : Sends ring (ringSearch address) (fun _ => True) "/s/main.scss" "a" "/s/a.scss" :=
    ⟨by decide, _, answers_ringSearch_iff.2 rfl, trivial, "a", rfl, by decide +kernel⟩
  constructor
  · apply dependencies_eq_nil wellFormed_ring (isSteady_ringSearch _) statements_single
    rintro path ⟨-, sought, hredirects, -⟩
    obtain ⟨answer, hanswer, hsought⟩ := redirects_iff.1 hredirects
    obtain rfl := answers_ringSearch_iff.1 hanswer
    cases hsought
  · exact ⟨"/s/main.scss", "@import 'a';", .entry, ⟨"@import 'a';", "a"⟩,
      by rw [statements_single]; exact List.mem_singleton_self _, hsends⟩

/-- The list need not hold every file that the reader opens: it may miss one that is imported by a
text that the hook gives, and one that the hook answers with an address. -/
theorem not_mem_dependencies_of_opens :
    (ring.WellFormed ∧ (ringSearch givenText).IsSteady ring ∧
      ∃ found path, dependencies ring (ringSearch givenText) "/s/main.scss" "@import 'v';" =
          .ok found ∧
        Opens ring (ringSearch givenText) (fun _ => True) "/s/main.scss" "@import 'v';" path ∧
        path ≠ "/s/main.scss" ∧ path ∉ found) ∧
    (ringSearch address).IsSteady ring ∧
      ∃ found path, dependencies ring (ringSearch address) "/s/main.scss" "@import 'a';" =
          .ok found ∧
        Opens ring (ringSearch address) (fun _ => True) "/s/main.scss" "@import 'a';" path ∧
        path ≠ "/s/main.scss" ∧ path ∉ found := by
  obtain ⟨htext, htextOpens⟩ := exists_unlisted_file_of_text
  obtain ⟨haddress, haddressOpens⟩ := exists_unlisted_file_of_address
  exact ⟨⟨wellFormed_ring, isSteady_ringSearch _, [], "/s/a.scss", htext, htextOpens, by decide,
    List.not_mem_nil⟩, isSteady_ringSearch _, [], "/s/a.scss", haddress, haddressOpens, by decide,
    List.not_mem_nil⟩

end StyleBundle.Dependency
