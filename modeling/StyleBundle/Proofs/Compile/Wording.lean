import Mathlib.Data.List.Basic
import StyleBundle.Proofs.Compile.Place
import StyleBundle.Proofs.Text.Blank
import StyleBundle.Proofs.Text.Search

/-!
# Diagnoses as an engine words them

An engine's message is a line with what is wrong, a line with the place, and an excerpt of the
text. Reading it gives back the message, the line and the column, whatever the excerpt holds. The
file is given back up to its first blank only, so a diagnosis is read as it was worded exactly if
its file holds no blank.
-/

namespace StyleBundle.Diagnosis

variable {message file : String} {line column : Nat}

/-! ## What stands before a place -/

/-- What cannot start a place is passed over. -/
theorem findLocator?_cons_of_ne {c : Char} (h : c ≠ 'o') (s : List Char) :
    findLocator? (c :: s) = findLocator? s := by
  have hnone : locator? (c :: s) = none := by
    simp [locator?, Text.dropFront?, Ne.symm h]
  rw [findLocator?, hnone]

/-- The word that opens a message starts no place. -/
theorem findLocator?_error_append (s : List Char) :
    findLocator? ("Error: ".toList ++ s) = findLocator? s := by
  have hnone : locator? ('o' :: 'r' :: ':' :: ' ' :: s) = none := by
    simp [locator?, Text.dropFront?]
  change findLocator? ('E' :: 'r' :: 'r' :: 'o' :: 'r' :: ':' :: ' ' :: s) = _
  rw [findLocator?_cons_of_ne (by decide), findLocator?_cons_of_ne (by decide),
    findLocator?_cons_of_ne (by decide), findLocator?, hnone]
  simp only
  rw [findLocator?_cons_of_ne (by decide), findLocator?_cons_of_ne (by decide),
    findLocator?_cons_of_ne (by decide)]

/-- A place stands on one line. -/
theorem Locator.Opens.of_append_break {found : Locator} {s rest : List Char}
    (h : found.Opens (s ++ '\n' :: rest)) : found.Opens s := by
  obtain ⟨hline, hcolumn, hne, after, heq, hrun⟩ := h
  have hfeed : '\n' ∉ found.text := by
    have hparts {a b c line column file : List Char} (ha : '\n' ∉ a) (hline : '\n' ∉ line)
        (hb : '\n' ∉ b) (hcolumn : '\n' ∉ column) (hc : '\n' ∉ c) (hfile : '\n' ∉ file) :
        '\n' ∉ a ++ (line ++ (b ++ (column ++ (c ++ file)))) := by
      simp only [List.mem_append, not_or]
      exact ⟨ha, hline, hb, hcolumn, hc, hfile⟩
    exact hparts (by decide) (fun hc => absurd (hline.2 _ hc) (by decide)) (by decide)
      (fun hc => absurd (hcolumn.2 _ hc) (by decide)) (by decide)
      fun hc => absurd (hrun.1 _ hc) (by decide)
  obtain ⟨behind, rfl⟩ := Text.prefix_of_append_eq hfeed heq.symm
  rw [List.append_assoc, List.append_cancel_left_eq] at heq
  refine ⟨hline, hcolumn, hne, behind, rfl, hrun.1, fun c hc => hrun.2 c ?_⟩
  rw [← heq, List.head?_append, Option.mem_def.1 hc]
  rfl

/-- Where there is no place on a line, it is looked for on the next one. -/
theorem findLocator?_append_break {s : List Char} (h : ¬ HasPlace s) (rest : List Char) :
    findLocator? (s ++ '\n' :: rest) = findLocator? rest := by
  rw [← findLocator?_eq_none_iff] at h
  induction s with
  | nil => exact findLocator?_cons_of_ne (by decide) rest
  | cons c s ih =>
    rw [findLocator?] at h
    split at h
    · cases h
    next hnone =>
      have hlater : locator? (c :: (s ++ '\n' :: rest)) = none := by
        rw [Option.eq_none_iff_forall_ne_some]
        intro found hfound
        have hopens := (locator?_eq_some_iff.1 hfound).of_append_break (s := c :: s)
        rw [locator?_eq_some_iff.2 hopens] at hnone
        cases hnone
      rw [List.cons_append, findLocator?, hlater]
      exact ih h

/-! ## Numbers -/

/-- The decimal digits that a number is written with are digits of the table. -/
theorem digitValue?_of_isDigit {c : Char} (h : c.isDigit = true) :
    Text.digitValue? c = some (c.toNat - 48) := by
  have hrange : 48 ≤ c.toNat ∧ c.toNat < 58 :=
    (Char.isDigit_iff_toNat.1 h).imp_right Nat.lt_succ_of_le
  simp [Text.digitValue?, Text.digitZeros, hrange]

theorem isNumeral_toDigits (n : Nat) : IsNumeral (Nat.toDigits 10 n) := by
  refine ⟨Nat.toDigits_ne_nil, fun c hc => ?_⟩
  have hdigit := Nat.isDigit_of_mem_toDigits (by decide) (by decide) hc
  rw [Text.isDigit, digitValue?_of_isDigit hdigit, Option.isSome_some]

/-- A number is read back from its digits. -/
theorem digitsValue_toDigits (n : Nat) : Text.digitsValue (Nat.toDigits 10 n) = n := by
  have hdigits : Text.digitsValue (Nat.toDigits 10 n) =
      Nat.ofDigitChars 10 (Nat.toDigits 10 n) 0 := by
    rw [Nat.ofDigitChars_eq_foldl, Text.digitsValue]
    refine List.foldl_ext _ _ _ fun m c hc => ?_
    have hdigit := Nat.isDigit_of_mem_toDigits (by decide) (by decide) hc
    rw [digitValue?_of_isDigit hdigit, Option.getD_some, Nat.mul_comm]
    rfl
  rw [hdigits, Nat.ofDigitChars_ten_toDigits]

/-- A number of which the digits can be converted is read back. -/
theorem number_toDigits {n : Nat} (h : (Nat.toDigits 10 n).length ≤ Json.maxDigits) :
    number (Nat.toDigits 10 n) = .ok n := by
  rw [number, if_neg (Nat.not_lt.2 h), digitsValue_toDigits]

/-! ## The message -/

/-- The first line is left of a text that starts with it, if more than blanks follow. -/
theorem firstLine_trim_append_break {line rest : List Char} (hne : line ≠ [])
    (hstart : ∀ c ∈ line.head?, Text.isBlank c = false)
    (hline : ∀ c ∈ line, Text.isLineEnd c = false) (hrest : ∃ c ∈ rest, Text.isBlank c = false) :
    Text.firstLine (Text.trim (line ++ '\n' :: rest)) = line := by
  obtain ⟨c, more, rfl⟩ := List.exists_cons_of_ne_nil hne
  obtain ⟨d, hd, hblank⟩ := hrest
  have htrimStart : Text.trimStart (c :: more ++ '\n' :: rest) = c :: more ++ '\n' :: rest := by
    rw [List.cons_append, Text.trimStart_cons, if_neg (by simp [hstart c rfl])]
  have hbreak : Text.trimEnd ('\n' :: rest) = '\n' :: Text.trimEnd rest :=
    Text.trimEnd_append_of_mem ⟨d, hd, hblank⟩ ['\n']
  have hrun : Text.IsRun (!Text.isLineEnd ·) (c :: more) ('\n' :: Text.trimEnd rest) := by
    refine ⟨fun e he => by simpa using hline e he, fun e he => ?_⟩
    obtain rfl : '\n' = e := Option.some.inj he
    rfl
  rw [Text.trim, htrimStart, Text.trimEnd_append_of_mem ⟨d, List.mem_cons_of_mem _ hd, hblank⟩,
    hbreak]
  exact hrun.takeWhile_append

/-- The message is the first line, without the word that opens it, if another line follows. -/
theorem messageOf_append_break {message rest : List Char}
    (htrim : Text.trim message = message) (hline : ∀ c ∈ message, Text.isLineEnd c = false)
    (hrest : ∃ c ∈ rest, Text.isBlank c = false) :
    messageOf ("Error: ".toList ++ message ++ '\n' :: rest) = message := by
  have hword : ∀ c ∈ "Error: ".toList, Text.isLineEnd c = false := by simp [Text.isLineEnd]
  have hfirst : Text.firstLine (Text.trim ("Error: ".toList ++ message ++ '\n' :: rest)) =
      "Error: ".toList ++ message := by
    refine firstLine_trim_append_break (List.append_ne_nil_of_left_ne_nil (by decide) message) ?_
      (fun c hc => (List.mem_append.1 hc).elim (hword c) (hline c)) hrest
    intro c hc
    obtain rfl : 'E' = c := Option.some.inj hc
    rfl
  have hdrop : Text.dropFront? "Error: ".toList ("Error: ".toList ++ message) = some message :=
    Text.dropFront?_eq_some_iff.2 rfl
  simp only [messageOf, hfirst, hdrop, Option.getD_some, htrim]

/-! ## Diagnoses as an engine words them -/

/-- The engine's wording of a diagnosis, with an excerpt of the text behind it. -/
def wording (message file : String) (line column : Nat) (excerpt : String) : String :=
  "Error: " ++ message ++ "\n        on line " ++ toString line ++ ":" ++ toString column ++
    " of " ++ file ++ "\n" ++ excerpt

/-- The second line of the wording is a place behind some blanks. -/
theorem toList_wording (message file : String) (line column : Nat) (excerpt : String) :
    (wording message file line column excerpt).toList =
      "Error: ".toList ++ message.toList ++ '\n' :: (List.replicate 8 ' ' ++
        (Locator.text ⟨Nat.toDigits 10 line, Nat.toDigits 10 column, file.toList⟩ ++
          '\n' :: excerpt.toList)) := by
  have hjoin : "\n        on line ".toList =
      '\n' :: (List.replicate 8 ' ' ++ "on line ".toList) := by decide
  -- The words are variables here, which keeps them from being evaluated.
  have hassoc {a m b l c k d f e x : String} {words : List Char} (he : e.toList = ['\n'])
      (hb : b.toList = '\n' :: (List.replicate 8 ' ' ++ words)) :
      (a ++ m ++ b ++ l ++ c ++ k ++ d ++ f ++ e ++ x).toList =
        a.toList ++ m.toList ++ '\n' :: (List.replicate 8 ' ' ++ (words ++ (l.toList ++
          (c.toList ++ (k.toList ++ (d.toList ++ f.toList)))) ++ '\n' :: x.toList)) := by
    simp [he, hb]
  have hfeed : "\n".toList = ['\n'] := rfl
  have hwords := hassoc (a := "Error: ") (m := message) (l := toString line) (c := ":")
    (k := toString column) (d := " of ") (f := file) (x := excerpt) hfeed hjoin
  rw [Nat.toString_eq_repr, Nat.toString_eq_repr, Nat.toList_repr, Nat.toList_repr] at hwords
  exact hwords

/-- The blanks in front of a place are passed over. -/
theorem findLocator?_replicate_append (n : Nat) (s : List Char) :
    findLocator? (List.replicate n ' ' ++ s) = findLocator? s := by
  induction n with
  | zero => rfl
  | succ n ih =>
    rw [List.replicate_succ, List.cons_append, findLocator?_cons_of_ne (by decide), ih]

/-- What is read of the engine's wording: everything but what follows a blank in the file. -/
theorem ofMessage_wording (excerpt : String)
    (htrim : Text.trim message.toList = message.toList)
    (honeLine : ∀ c ∈ message.toList, Text.isLineEnd c = false)
    (hplace : ¬ HasPlace message.toList) (hfile : file.toList.takeWhile (!Text.isBlank ·) ≠ [])
    (hline : (Nat.toDigits 10 line).length ≤ Json.maxDigits)
    (hcolumn : (Nat.toDigits 10 column).length ≤ Json.maxDigits) :
    ofMessage (wording message file line column excerpt) =
      .ok ⟨message, String.ofList (file.toList.takeWhile (!Text.isBlank ·)), line, column⟩ := by
  have hopens : Locator.Opens ⟨Nat.toDigits 10 line, Nat.toDigits 10 column,
      file.toList.takeWhile (!Text.isBlank ·)⟩
      (Locator.text ⟨Nat.toDigits 10 line, Nat.toDigits 10 column, file.toList⟩ ++
        '\n' :: excerpt.toList) := by
    have hsplit := List.takeWhile_append_dropWhile (p := (!Text.isBlank ·)) (l := file.toList)
    have hrun := Text.isRun_takeWhile (!Text.isBlank ·) file.toList
    refine ⟨isNumeral_toDigits line, isNumeral_toDigits column, hfile,
      file.toList.dropWhile (!Text.isBlank ·) ++ '\n' :: excerpt.toList, ?_, hrun.1, fun c hc => ?_⟩
    · rw [text_append, text_append, ← List.append_assoc (List.takeWhile _ _), hsplit]
    · cases hafter : file.toList.dropWhile (!Text.isBlank ·) with
      | nil =>
        rw [hafter] at hc
        obtain rfl : '\n' = c := Option.some.inj hc
        rfl
      | cons d after =>
        rw [hafter] at hc hrun
        exact hrun.2 c hc
  have hfound : findLocator? (wording message file line column excerpt).toList =
      some ⟨Nat.toDigits 10 line, Nat.toDigits 10 column,
        file.toList.takeWhile (!Text.isBlank ·)⟩ := by
    obtain ⟨d, rest, hd⟩ := List.exists_cons_of_ne_nil hopens.ne_nil
    have hbreak : ¬ HasPlace ("Error: ".toList ++ message.toList) := by
      rwa [← findLocator?_eq_none_iff, findLocator?_error_append, findLocator?_eq_none_iff]
    rw [toList_wording, findLocator?_append_break hbreak, findLocator?_replicate_append, hd,
      findLocator?, ← hd, locator?_eq_some_iff.2 hopens]
  have hmessage : messageOf (wording message file line column excerpt).toList = message.toList := by
    rw [toList_wording]
    refine messageOf_append_break htrim honeLine ⟨'o', ?_, by decide⟩
    refine List.mem_append_right _ (List.mem_append_left _ ?_)
    exact List.mem_append_left _ (by decide)
  rw [ofMessage, hmessage, hfound, String.ofList_toList]
  simp only [number_toDigits hline, number_toDigits hcolumn]

/-- A diagnosis is read back with its message, line and column, and with its file up to the first
blank: the whole of it exactly if it holds none. -/
theorem ofMessage_wording_eq_iff (excerpt : String)
    (htrim : Text.trim message.toList = message.toList)
    (honeLine : ∀ c ∈ message.toList, Text.isLineEnd c = false)
    (hplace : ¬ HasPlace message.toList) (hfile : file ≠ "")
    (hsides : Text.trim file.toList = file.toList)
    (hline : (Nat.toDigits 10 line).length ≤ Json.maxDigits)
    (hcolumn : (Nat.toDigits 10 column).length ≤ Json.maxDigits) :
    ofMessage (wording message file line column excerpt) =
      .ok ⟨message, String.ofList (file.toList.takeWhile (!Text.isBlank ·)), line, column⟩ ∧
    (ofMessage (wording message file line column excerpt) = .ok ⟨message, file, line, column⟩ ↔
      ∀ c ∈ file.toList, Text.isBlank c = false) := by
  have hname : file.toList.takeWhile (!Text.isBlank ·) ≠ [] := by
    obtain ⟨c, s, hs⟩ := List.exists_cons_of_ne_nil (mt String.toList_eq_nil_iff.1 hfile)
    have hc : Text.isBlank c = false := Text.isBlank_of_trim_eq_self hsides c (by rw [hs]; rfl)
    rw [hs, List.takeWhile_cons_of_pos (by simpa using hc)]
    exact List.cons_ne_nil _ _
  have hread := ofMessage_wording excerpt htrim honeLine hplace hname hline hcolumn
  refine ⟨hread, ?_⟩
  rw [hread]
  constructor
  · intro h
    have hwhole : file.toList.takeWhile (!Text.isBlank ·) = file.toList := by
      have hfiles : String.ofList (file.toList.takeWhile (!Text.isBlank ·)) = file :=
        congrArg Diagnosis.file (Except.ok.inj h)
      rw [← String.toList_ofList (l := file.toList.takeWhile (!Text.isBlank ·)), hfiles]
    intro c hc
    rw [← hwhole] at hc
    simpa using List.mem_takeWhile_imp hc
  · intro h
    have hwhole : file.toList.takeWhile (!Text.isBlank ·) = file.toList :=
      List.takeWhile_eq_self_iff.2 fun c hc => by simpa using h c hc
    rw [hwhole, String.ofList_toList]

/-- A file in a directory without blanks in its name is read back. -/
theorem ofMessage_wording_vars :
    ofMessage (wording "Invalid CSS" "styles/_vars.scss" 1 4 "") =
      .ok ⟨"Invalid CSS", "styles/_vars.scss", 1, 4⟩ := by
  have hplace : ¬ HasPlace "Invalid CSS".toList := findLocator?_eq_none_iff.1 (by decide)
  exact (ofMessage_wording_eq_iff "" (by decide) (by simp [Text.isLineEnd]) hplace (by decide)
    (by decide) (by decide) (by decide)).2.2 (by simp [Text.isBlank])

/-- A file in a directory with a blank in its name is cut short. -/
theorem ofMessage_wording_spaced :
    ofMessage (wording "Invalid CSS" "my dir/a.scss" 1 4 "") = .ok ⟨"Invalid CSS", "my", 1, 4⟩ ∧
      ofMessage (wording "Invalid CSS" "my dir/a.scss" 1 4 "") ≠
        .ok ⟨"Invalid CSS", "my dir/a.scss", 1, 4⟩ := by
  have hplace : ¬ HasPlace "Invalid CSS".toList := findLocator?_eq_none_iff.1 (by decide)
  have hread := @ofMessage_wording "Invalid CSS" "my dir/a.scss" 1 4 ""
    (by decide) (by simp [Text.isLineEnd]) hplace (by decide) (by decide) (by decide)
  rw [hread]
  decide

end StyleBundle.Diagnosis
