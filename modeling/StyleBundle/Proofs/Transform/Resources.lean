import Mathlib.Data.List.Forall2
import StyleBundle.Proofs.Text.Utf8
import StyleBundle.Session

/-!
# Asking for the resources

The resources of a session are asked for again and again, each time with some paths, and files are
edited in between. The first time that all files can be read settles what the resources are. Before
that a failure leaves nothing behind, and afterwards the paths and the files do not matter any more.
-/

namespace StyleBundle.Session

variable {d : Disk} {s : Session} {path : String} {paths texts : List String} {failure : Failure}
  {value : Option String} {events : List Event}

/-! ## Reading the texts -/

section Limited

variable [Limits]

/-- The texts are those of the files at the paths, one by one. -/
def AreTexts (d : Disk) (paths texts : List String) : Prop :=
  List.Forall₂ (fun path text => d.readText path = .ok text) paths texts

/-- The first of the files that cannot be read cannot for this reason. -/
def FirstFails (d : Disk) (paths : List String) (failure : Failure) : Prop :=
  ∃ front path behind texts, paths = front ++ path :: behind ∧ AreTexts d front texts ∧
    d.readText path = .error failure

theorem firstFails_cons : FirstFails d (path :: paths) failure ↔
    d.readText path = .error failure ∨
      (∃ text, d.readText path = .ok text) ∧ FirstFails d paths failure := by
  constructor
  · rintro ⟨front, other, behind, texts, hpaths, htexts, hother⟩
    cases htexts with
    | nil =>
      obtain ⟨rfl, -⟩ := List.cons.inj hpaths
      exact .inl hother
    | cons hfirst hrest =>
      obtain ⟨rfl, rfl⟩ := List.cons.inj hpaths
      exact .inr ⟨⟨_, hfirst⟩, _, other, behind, _, rfl, hrest, hother⟩
  · rintro (hpath | ⟨⟨text, hpath⟩, front, other, behind, texts, rfl, htexts, hother⟩)
    · exact ⟨[], path, paths, [], rfl, .nil, hpath⟩
    · exact ⟨path :: front, other, behind, text :: texts, rfl, .cons hpath htexts, hother⟩

/-- The texts that are read are those of the files. -/
theorem readTexts_eq_ok_iff : readTexts d paths = .ok texts ↔ AreTexts d paths texts := by
  induction paths generalizing texts with
  | nil => simp [readTexts, AreTexts, eq_comm]
  | cons path rest ih =>
    have hcons : AreTexts d (path :: rest) texts ↔ ∃ text others, d.readText path = .ok text ∧
        readTexts d rest = .ok others ∧ texts = text :: others := by
      simp only [ih]
      exact List.forall₂_cons_left_iff
    rw [hcons, readTexts]
    cases d.readText path with
    | error failure => simp
    | ok text => cases readTexts d rest <;> simp [eq_comm]

/-- Reading fails with the first file that cannot be read. -/
theorem readTexts_eq_error_iff : readTexts d paths = .error failure ↔
    FirstFails d paths failure := by
  induction paths with
  | nil => simp [readTexts, FirstFails]
  | cons path rest ih =>
    rw [firstFails_cons, ← ih, readTexts]
    cases d.readText path with
    | error other => simp
    | ok text => cases readTexts d rest <;> simp

end Limited

/-- What is made of the texts: each with a line break behind it, and nothing of none. -/
def joined (texts : List String) : Option String :=
  if texts = [] then none else some (String.join (texts.map (· ++ "\n")))

/-- Texts that are joined by line breaks and ended by one have one behind each. -/
theorem joinTexts_eq (texts : List String) : joinTexts texts = joined texts := by
  cases texts with
  | nil => rfl
  | cons text rest =>
    have hjoined : "\n".intercalate (text :: rest) ++ "\n" =
        String.join ((text :: rest).map (· ++ "\n")) := by
      induction rest generalizing text with
      | nil => simp
      | cons next rest ih =>
        rw [List.map_cons, String.join_cons, ← ih next]
        simp [← String.toList_inj, List.intercalate]
    simp only [joinTexts, joined, hjoined]
    simp

/-! ## One asking -/

/-- Where the resources are not settled, an asking fails as the reading of its files does. -/
theorem loadResources_eq_error_iff (hs : s.resources = none) :
    (s.loadResources paths).1 = .error failure ↔ FirstFails s.disk paths failure := by
  rw [← readTexts_eq_error_iff, loadResources, hs]
  cases readTexts s.disk paths <;> simp

/-- Where the resources are not settled, an asking is answered with the texts of its files. -/
theorem loadResources_eq_ok_iff (hs : s.resources = none) :
    (s.loadResources paths).1 = .ok value ↔
      ∃ texts, AreTexts s.disk paths texts ∧ value = joined texts := by
  simp only [← readTexts_eq_ok_iff, ← joinTexts_eq]
  rw [loadResources, hs]
  cases readTexts s.disk paths <;> simp [eq_comm]

/-- An asking that fails leaves the session as it is. -/
theorem loadResources_of_error (h : (s.loadResources paths).1 = .error failure) :
    (s.loadResources paths).2 = s := by
  unfold loadResources at h ⊢
  split at h
  · cases h
  · split at h
    next => rfl
    next => cases h

/-- An asking that is answered settles the resources. -/
theorem resources_of_ok (h : (s.loadResources paths).1 = .ok value) :
    (s.loadResources paths).2.resources = some value := by
  unfold loadResources at h ⊢
  split at h
  next hsettled =>
    obtain rfl := Except.ok.inj h
    simp only [hsettled]
  next =>
    split at h
    · cases h
    next =>
      obtain rfl := Except.ok.inj h
      rfl

/-- Settled resources are the answer, whatever is asked for, and the session stays as it is. -/
theorem loadResources_of_settled (hs : s.resources = some value) (paths : List String) :
    s.loadResources paths = (.ok value, s) := by
  rw [loadResources, hs]

/-! ## A row of askings and edits -/

/-- What happens to the resources and their files. -/
inductive Event
  /-- The resources are asked for with some paths. -/
  | ask (paths : List String)
  /-- The files are edited. -/
  | edit (disk : Disk)

/-- The session after an event. -/
def step (s : Session) : Event → Session
  | .ask paths => (s.loadResources paths).2
  | .edit disk => { s with disk }

/-- The session after a row of events. -/
def after (s : Session) (events : List Event) : Session := events.foldl step s

/-- The disk after a row of events, among which only the edits count. -/
def edited (d : Disk) (events : List Event) : Disk :=
  events.foldl (fun d event => match event with | .ask _ => d | .edit disk => disk) d

/-- No asking in a row of events has been answered. -/
def Unanswered (s : Session) (events : List Event) : Prop :=
  ∀ earlier paths later, events = earlier ++ .ask paths :: later →
    ∃ failure, ((s.after earlier).loadResources paths).1 = .error failure

/-- As long as no asking is answered, only the edits count. -/
theorem after_of_unanswered (h : Unanswered s events) :
    s.after events = { s with disk := edited s.disk events } := by
  induction events generalizing s with
  | nil => rfl
  | cons event rest ih =>
    have hrest : Unanswered (s.step event) rest := fun earlier paths later hsplit =>
      h (event :: earlier) paths later (by rw [hsplit, List.cons_append])
    have hafter := ih hrest
    cases event with
    | ask paths =>
      obtain ⟨failure, hfails⟩ := h [] paths rest rfl
      have hstep : s.step (.ask paths) = s := loadResources_of_error hfails
      rw [hstep] at hafter
      rw [after, List.foldl_cons, hstep]
      exact hafter
    | edit disk => exact hafter

/-- Settled resources stay settled. -/
theorem resources_after (hs : s.resources = some value) (events : List Event) :
    (s.after events).resources = some value := by
  induction events generalizing s with
  | nil => exact hs
  | cons event rest ih =>
    refine ih ?_
    cases event with
    | ask paths =>
      have hstep : s.step (.ask paths) = s := by
        rw [step, loadResources_of_settled hs]
      rw [hstep, hs]
    | edit disk => exact hs

/-- Up to the first asking that is answered, a session changes with the edits only, and an asking
fails exactly if a file cannot be read, with the failure of the first such file. The first asking
that is answered is answered with the texts of its files, each with a line break behind it, and from
then on this is the answer to every asking, whatever the paths and whatever becomes of the files. -/
theorem resources_settle (hs : s.resources = none) (hevents : Unanswered s events)
    (paths : List String) :
    s.after events = { s with disk := edited s.disk events } ∧
      (∀ failure, ((s.after events).loadResources paths).1 = .error failure ↔
        FirstFails (edited s.disk events) paths failure) ∧
      (∀ failure, ((s.after events).loadResources paths).1 = .error failure →
        (s.after events).step (.ask paths) = s.after events) ∧
      (∀ value, ((s.after events).loadResources paths).1 = .ok value ↔
        ∃ texts, AreTexts (edited s.disk events) paths texts ∧ value = joined texts) ∧
      ∀ value, ((s.after events).loadResources paths).1 = .ok value → ∀ later other,
        (((s.after events).step (.ask paths)).after later).loadResources other =
          (.ok value, ((s.after events).step (.ask paths)).after later) := by
  have hafter := after_of_unanswered hevents
  have hnone : (s.after events).resources = none := by rw [hafter, hs]
  have hdisk : (s.after events).disk = edited s.disk events := by rw [hafter]
  refine ⟨hafter, fun failure => ?_, fun failure => loadResources_of_error, fun value => ?_,
    fun value hanswered later other => ?_⟩
  · rw [loadResources_eq_error_iff hnone, hdisk]
  · rw [loadResources_eq_ok_iff hnone, hdisk]
  · exact loadResources_of_settled (resources_after (resources_of_ok hanswered) later) other

/-- A disk with a directory. -/
def bareDisk : Disk where
  nodes := [([], .directory ⟨0⟩), (["s"], .directory ⟨0⟩)]
  home := ["s"]
  clock := ⟨1⟩

/-- The same disk with a file in the directory. -/
def stockedDisk : Disk :=
  { bareDisk with
    nodes := bareDisk.nodes ++ [(["s", "a.scss"], .file (Text.Utf8.encode ".a".toList) ⟨0⟩)] }

/-- A session that has not read its resources. -/
def freshSession : Session := ⟨bareDisk, none, none, none⟩

/-- The file is asked for in vain, and then it is written. -/
def lateEvents : List Event := [.ask ["a.scss"], .edit stockedDisk]

/-- A file that is asked for in vain, then written, asked for again and removed still is what
another asking is answered with. -/
theorem resources_settle_late :
    freshSession.resources = none ∧ Unanswered freshSession lateEvents ∧
      ((freshSession.after lateEvents).loadResources ["a.scss"]).1 = .ok (some ".a\n") ∧
      ((((freshSession.after lateEvents).step (.ask ["a.scss"])).after
        [.edit bareDisk]).loadResources ["b.scss"]).1 = .ok (some ".a\n") := by
  have hvain : ∃ failure, (freshSession.loadResources ["a.scss"]).1 = .error failure :=
    ⟨_, (loadResources_eq_error_iff rfl).2
      ⟨[], "a.scss", [], [], rfl, .nil, show bareDisk.readText "a.scss" =
        .error (.disk (.refused .missing "a.scss")) by decide +kernel⟩⟩
  have hevents : Unanswered freshSession lateEvents := by
    intro earlier paths later hsplit
    match earlier with
    | [] =>
      obtain ⟨hask, -⟩ := List.cons.inj hsplit
      obtain rfl := Event.ask.inj hask
      exact hvain
    | [_] => cases (List.cons.inj (List.cons.inj hsplit).2).1
    | _ :: _ :: _ => simp [lateEvents] at hsplit
  obtain ⟨-, -, -, hanswered, hkept⟩ := resources_settle rfl hevents ["a.scss"]
  have htext : (edited bareDisk lateEvents).readText "a.scss" = .ok ".a" := by decide +kernel
  have hfirst := (hanswered (some ".a\n")).2 ⟨[".a"], .cons htext .nil, by decide⟩
  exact ⟨rfl, hevents, hfirst, congrArg Prod.fst (hkept _ hfirst [.edit bareDisk] ["b.scss"])⟩

end StyleBundle.Session
