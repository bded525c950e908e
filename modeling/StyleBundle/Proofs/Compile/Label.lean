import Mathlib.Data.List.Forall2
import StyleBundle.Compile.Request
import StyleBundle.Compile.SourceMap
import StyleBundle.Proofs.Json.Reading

/-!
# Labels of source maps

A source map that is an object keeps every member when it is relabelled, in its place and with its
value, but for the name of its output and for the name of the inline source. Relabelling goes
through text in both directions, so this is said of the texts: a map is any text that writes an
object, and what comes out writes the object with its labels. It stays as it is when it is
relabelled again. Two things keep a map from being relabelled that are no fault of its shape: an
integer with more digits than are converted, and more levels than there is room for.
-/

namespace StyleBundle.SourceMap

variable {r : Request} {members : List (List Json.Sign × Value)} {sources : List Value}
  {room : Json.Room} {levels : ℕ}

/-! ## What the labels of a map are -/

/-- A value as a row of values. -/
inductive IsRow : Value → List Value → Prop
  /-- A list is the row of its items. -/
  | items {items : List Value} : IsRow (.arr items) items
  /-- A text is the row of its signs. -/
  | signs {signs : List Json.Sign} : IsRow (.str signs) (signs.map fun sign => .str [sign])
  /-- An object is the row of its names. -/
  | names {members : List (List Json.Sign × Value)} :
    IsRow (.obj members) (members.map fun member => .str member.1)

/-- The sources of a map: the row that it names, or none if it says nothing of them. -/
inductive HasSources (members : List (List Json.Sign × Value)) : List Value → Prop
  /-- The sources are a row. -/
  | listed {value : Value} {sources : List Value}
    (found : Table.get? sourcesKey members = some value) (row : IsRow value sources) :
    HasSources members sources
  /-- The map says nothing of its sources. -/
  | missing (absent : Table.get? sourcesKey members = none) : HasSources members []

/-- What becomes of a source: the inline text is named after its file, and all others stay. -/
inductive Renames (file : String) : Value → Value → Prop
  /-- The inline text. -/
  | inline : Renames file (textValue inlineSource) (textValue file)
  /-- Any other source. -/
  | other {source : Value} (ne_inline : source ≠ textValue inlineSource) :
    Renames file source source

/-- The names of a map with one more, which comes last if it is new. -/
def withKey (key : List Json.Sign) (keys : List (List Json.Sign)) : List (List Json.Sign) :=
  if key ∈ keys then keys else keys ++ [key]

/-- A map that differs from another in the labels that a request gives, and in nothing else. -/
structure Labels (r : Request) (members : List (List Json.Sign × Value)) (sources : List Value)
    (labelled : List (List Json.Sign × Value)) : Prop where
  /-- The names stay in their order, and only those of the labels can be new. -/
  keys_eq : Table.keys labelled = withKey sourcesKey
    (if r.outFile.getD "" = "" then Table.keys members else withKey fileKey (Table.keys members))
  /-- No other member changes. -/
  get?_of_ne : ∀ key, key ≠ fileKey → key ≠ sourcesKey →
    Table.get? key labelled = Table.get? key members
  /-- The output has the name that is given, and else the one it had. -/
  file_eq : Table.get? fileKey labelled =
    if r.outFile.getD "" = "" then Table.get? fileKey members
    else some (textValue (r.outFile.getD ""))
  /-- The sources are those of the map, in their order, with the inline text named. -/
  sources_eq : ∃ renamed, Table.get? sourcesKey labelled = some (.arr renamed) ∧
    List.Forall₂ (Renames r.file) sources renamed

/-! ## The members of a relabelled map -/

/-- The members with the name of the output, if there is one. -/
def named (r : Request) (members : List (List Json.Sign × Value)) :
    List (List Json.Sign × Value) :=
  if r.outFile.getD "" = "" then members
  else Table.put fileKey (textValue (r.outFile.getD "")) members

/-- The members with all labels. -/
def relabelled (r : Request) (members : List (List Json.Sign × Value)) (sources : List Value) :
    List (List Json.Sign × Value) :=
  Table.put sourcesKey (.arr (sources.map (relabelSource r.file))) (named r members)

theorem sourcesKey_ne_fileKey : sourcesKey ≠ fileKey := by decide

/-- The name of the output does not touch other members. -/
theorem get?_named_of_ne {key : List Json.Sign} (h : key ≠ fileKey) :
    Table.get? key (named r members) = Table.get? key members := by
  unfold named
  split
  · rfl
  · exact Table.get?_put_of_ne _ members h.symm

/-- The sources of a map are the row that is relabelled. -/
theorem HasSources.sourceItems_eq (h : HasSources members sources) :
    sourceItems ((Table.get? sourcesKey members).getD (.arr [])) = .ok sources := by
  cases h with
  | listed found row =>
    rw [found]
    cases row <;> rfl
  | missing absent =>
    rw [absent]
    rfl

/-- The members of an object are relabelled one by one. -/
theorem relabelValue_obj (h : HasSources members sources) :
    relabelValue r.outFile r.file (.obj members) = .ok (.obj (relabelled r members sources)) := by
  have hset : (if r.outFile.getD "" = "" then Except.ok (.obj members)
      else setFile (r.outFile.getD "") (.obj members)) = .ok (.obj (named r members)) := by
    unfold named
    split <;> rfl
  rw [relabelValue, hset, Except.bind, labelSources, get?_named_of_ne sourcesKey_ne_fileKey,
    h.sourceItems_eq]
  rfl

/-- A source is renamed once. -/
theorem relabelSource_relabelSource (file : String) (source : Value) :
    relabelSource file (relabelSource file source) = relabelSource file source := by
  cases source with
  | str s =>
    by_cases h : s = Json.signsOf inlineSource
    · simp [relabelSource, h, textValue]
    · simp [relabelSource, h]
  | _ => rfl

theorem renames_relabelSource (file : String) (source : Value) :
    Renames file source (relabelSource file source) := by
  by_cases h : source = textValue inlineSource
  · subst h
    simpa [relabelSource, textValue] using Renames.inline
  · have hsame : relabelSource file source = source := by
      cases source with
      | str s => rw [relabelSource, if_neg fun hs => h (congrArg Json.str hs)]
      | _ => rfl
    rw [hsame]
    exact .other h

/-- Putting a member keeps the names, and a new one comes last. -/
theorem keys_put_eq_withKey (key : List Json.Sign) (value : Value) :
    Table.keys (Table.put key value members) = withKey key (Table.keys members) := by
  rw [Table.keys_put, withKey]
  by_cases h : key ∈ Table.keys members
  · rw [if_pos h, if_pos h]
  · rw [if_neg h, if_neg h]

/-- The new members differ from the old ones in the labels only. -/
theorem labels_relabelled : Labels r members sources (relabelled r members sources) where
  keys_eq := by
    rw [relabelled, keys_put_eq_withKey, named]
    split
    · rfl
    · rw [keys_put_eq_withKey]
  get?_of_ne key hfile hsources := by
    rw [relabelled, Table.get?_put_of_ne _ _ hsources.symm, get?_named_of_ne hfile]
  file_eq := by
    rw [relabelled, Table.get?_put_of_ne _ _ sourcesKey_ne_fileKey, named]
    split
    · rfl
    · exact Table.get?_put_self ..
  sources_eq := by
    refine ⟨_, Table.get?_put_self .., ?_⟩
    rw [List.forall₂_map_right_iff]
    exact List.forall₂_same.2 fun source _ => renames_relabelSource r.file source

/-- Labels that are set already stay when they are set again. -/
theorem relabelled_relabelled (r : Request) (members : List (List Json.Sign × Value))
    (sources : List Value) :
    relabelled r (relabelled r members sources) (sources.map (relabelSource r.file)) =
      relabelled r members sources := by
  have hnamed : named r (relabelled r members sources) = relabelled r members sources := by
    by_cases h : r.outFile.getD "" = ""
    · rw [named, if_pos h]
    · rw [named, if_neg h]
      refine Table.put_of_get? ?_
      rw [relabelled, Table.get?_put_of_ne _ _ sourcesKey_ne_fileKey, named, if_neg h,
        Table.get?_put_self]
  have hsources : (sources.map (relabelSource r.file)).map (relabelSource r.file) =
      sources.map (relabelSource r.file) := by
    rw [List.map_map]
    exact List.map_congr_left fun source _ => relabelSource_relabelSource r.file source
  rw [relabelled, hnamed, hsources]
  exact Table.put_of_get? (Table.get?_put_self ..)

/-! ## The text of a relabelled map -/

section Plain

variable {longest : ℕ}

theorem isPlain_textValue (s : String) : Json.IsPlain longest levels (textValue s) :=
  .str (Json.isChars_signsOf s)

/-- A plain source stays plain under its new name. -/
theorem isPlain_relabelSource {source : Value} (h : Json.IsPlain longest levels source)
    (file : String) : Json.IsPlain longest levels (relabelSource file source) := by
  cases h with
  | str chars =>
    rw [relabelSource]
    split
    · exact isPlain_textValue file
    · exact .str chars
  | null => exact .null
  | bool b => exact .bool b
  | int short => exact .int short
  | arr each => exact .arr each
  | obj once names each => exact .obj once names each

/-- The sources of a plain map are plain, and stand two levels deeper. -/
theorem HasSources.isPlain (h : HasSources members sources)
    (hplain : Json.IsPlain longest (levels + 1) (.obj members)) :
    ∀ source ∈ sources, Json.IsPlain longest (levels - 1) source := by
  cases h with
  | missing => exact List.forall_mem_nil _
  | listed found row =>
    cases hplain with
    | obj _ _ each =>
      have hvalue := each _ (Table.mem_of_get? found)
      cases row with
      | items =>
        cases hvalue with
        | arr each => exact each
      | signs =>
        cases hvalue with
        | str chars =>
          obtain ⟨s, rfl⟩ := chars
          refine List.forall_mem_map.2 fun sign hsign => ?_
          obtain ⟨c, -, rfl⟩ := List.mem_map.1 hsign
          exact .str ⟨[c], rfl⟩
      | names =>
        cases hvalue with
        | obj _ names _ => exact List.forall_mem_map.2 fun member hmember => .str (names _ hmember)

/-- A plain map is plain with its labels, of which the sources take two levels. -/
theorem isPlain_relabelled (hplain : Json.IsPlain longest levels (.obj members))
    (hsources : HasSources members sources) :
    Json.IsPlain longest (max levels 2) (.obj (relabelled r members sources)) := by
  obtain ⟨levels, rfl⟩ : ∃ inner, levels = inner + 1 := by
    cases hplain
    exact ⟨_, rfl⟩
  have hrenamed :
      Json.IsPlain longest (levels - 1 + 1) (.arr (sources.map (relabelSource r.file))) :=
    .arr (List.forall_mem_map.2 fun source hsource =>
      isPlain_relabelSource (hsources.isPlain hplain source hsource) r.file)
  cases hplain with
  | obj once names each =>
    have hnamed : ∀ member ∈ named r members,
        Json.IsChars member.1 ∧ Json.IsPlain longest levels member.2 := by
      intro member hmember
      unfold named at hmember
      split at hmember
      · exact ⟨names member hmember, each member hmember⟩
      · obtain rfl | hmember := Table.mem_of_mem_put hmember
        · exact ⟨Json.isChars_signsOf _, isPlain_textValue _⟩
        · exact ⟨names member hmember, each member hmember⟩
    have hall : ∀ member ∈ relabelled r members sources,
        Json.IsChars member.1 ∧ Json.IsPlain longest (max levels 1) member.2 := by
      intro member hmember
      obtain rfl | hmember := Table.mem_of_mem_put hmember
      · exact ⟨Json.isChars_signsOf _, hrenamed.mono (by omega)⟩
      · exact ⟨(hnamed member hmember).1, (hnamed member hmember).2.mono (le_max_left ..)⟩
    have honce : (Table.keys (relabelled r members sources)).Nodup := by
      refine Table.nodup_keys_put _ _ ?_
      unfold named
      split
      · exact once
      · exact Table.nodup_keys_put _ _ once
    rw [show max (levels + 1) 2 = max levels 1 + 1 by omega]
    exact .obj honce (fun member hmember => (hall member hmember).1)
      fun member hmember => (hall member hmember).2

end Plain

/-- The text of a map is the text of its members with their labels, if there is room for them. -/
theorem relabelWithin_of_read {map : String}
    (hread : Json.readWithin room.reading map = .ok (.obj members))
    (hsources : HasSources members sources) :
    relabelWithin room r.outFile r.file map =
      printWithin room.writing (.obj (relabelled r members sources)) := by
  simp only [relabelWithin, hread, relabelValue_obj hsources, Except.bind]

/-- Relabelling a map changes its labels only, where no integer has more digits than are converted
and there is room for the levels: what comes out writes the same object with the labels of the
request, is read as that object, and comes out again when it is relabelled once more. -/
theorem relabel_changes_labels (r : Request) {room : Json.Room} {map : String} {levels : ℕ}
    {members : List (List Json.Sign × Value)} {sources : List Value}
    (htext : Json.IsText Json.maxDigits levels map (.obj members))
    (hsources : HasSources members sources)
    (hreading : Within room.reading (max levels 2))
    (hwriting : Within room.writing (max levels 2)) :
    ∃ label labelled, relabelWithin room r.outFile r.file map = .ok label ∧
      Json.IsText Json.maxDigits (max levels 2) label (.obj labelled) ∧
      Json.readWithin room.reading label = .ok (.obj labelled) ∧
      Labels r members sources labelled ∧
      relabelWithin room r.outFile r.file label = .ok label := by
  have hplain : Json.IsPlain Json.maxDigits (max levels 2) (.obj (relabelled r members sources)) :=
    isPlain_relabelled htext.isPlain hsources
  have hlabel := Json.isText_print Json.Style.isPlain_spaced hplain
  have hread := htext.readWithin_eq le_rfl (hreading.mono (le_max_left ..))
  have hback := hlabel.readWithin_eq le_rfl hreading
  have hprint : printWithin room.writing (.obj (relabelled r members sources)) =
      .ok (Json.print .spaced (.obj (relabelled r members sources))) :=
    if_pos (hwriting.mono hplain.depth_le)
  have hagain := relabelWithin_of_read (r := r) hback
    (.listed (Table.get?_put_self ..) .items)
  rw [relabelled_relabelled, hprint] at hagain
  exact ⟨_, _, (relabelWithin_of_read hread hsources).trans hprint, hlabel, hback,
    labels_relabelled, hagain⟩

/-! ## Maps that are refused -/

/-- Characters without escapes are written as themselves. -/
theorem isQuoted_plain {s : List Char}
    (h : (s.all fun c => c ≠ '"' ∧ c ≠ '\\' ∧ ¬ c.toNat < 0x20) = true) :
    Json.IsQuoted s (s.map Json.Sign.char) := by
  induction s with
  | nil => exact .nil
  | cons c s ih =>
    rw [List.all_cons, Bool.and_eq_true, decide_eq_true_eq] at h
    obtain ⟨⟨hquote, hbackslash, hprintable⟩, hs⟩ := h
    exact .cons (.plain hquote hbackslash hprintable) (ih hs)

/-- A map whose only member is a number. -/
def numberMap (digits : List Char) : String :=
  String.ofList ('\x7b' :: '"' :: 'n' :: '"' :: ':' :: (digits ++ ['\x7d']))

/-- Such a map writes an object. -/
theorem isText_numberMap {digits : List Char} (h : Json.IsWhole digits) :
    Json.IsText digits.length 1 (numberMap digits)
      (.obj [(Json.signsOf "n", .int (Json.Reader.natOf digits))] : Value) := by
  have hnumber : Json.Writes digits.length 0 digits (.int (Json.Reader.natOf digits) : Value) :=
    .int h le_rfl
  have hname : Json.IsQuoted ['n'] (Json.signsOf "n") := isQuoted_plain (s := ['n']) (by decide)
  have hmap := @Json.Writes.obj _ _ _ _ _ [⟨[], ['n'], [], Json.signsOf "n", ⟨[], digits, [], _⟩⟩]
    (List.cons_ne_nil _ _) (List.forall_mem_singleton.2 ⟨Json.isBlank_nil, Json.isBlank_nil, hname,
      Json.isBlank_nil, Json.isBlank_nil⟩) (List.forall_mem_singleton.2 hnumber)
  rw [Json.row_map_singleton] at hmap
  refine ⟨[], _, [], Json.isBlank_nil, hmap, Json.isBlank_nil, ?_⟩
  simp [numberMap, Json.Member.chars, Json.Item.chars]

/-- With too many digits it cannot be read. -/
theorem readWithin_numberMap {digits : List Char} (h : Json.IsWhole digits)
    (hlong : Json.maxDigits < digits.length) :
    (Json.readWithin none (numberMap digits) : Except Json.Fault Value) =
      .error ⟨.longInteger digits.length, digits.length + 1⟩ := by
  have hname : Json.IsQuoted ['n'] (Json.HasSigns.signs (Json.signsOf "n")) :=
    isQuoted_plain (s := ['n']) (by decide)
  have htext : Json.Reader.text ('n' :: '"' :: ':' :: (digits ++ ['\x7d'])) = _ :=
    hname.text_append (':' :: (digits ++ ['\x7d']))
  obtain ⟨c, more, hc, hdigits⟩ := h.exists_eq_cons
  have hspace : Json.Reader.skipSpace (digits ++ ['\x7d']) = digits ++ ['\x7d'] := by
    rw [hdigits]
    exact Json.skipSpace_of_isSpace_eq_false
      (Json.isSpace_of_isOpener (by simp [Json.isOpener, hc])) _
  have hcolon := Json.skipSpace_of_isSpace_eq_false (c := ':') (by decide) (digits ++ ['\x7d'])
  have hquote := Json.skipSpace_of_isSpace_eq_false (c := '"') (by decide)
    ('n' :: '"' :: ':' :: (digits ++ ['\x7d']))
  have hbrace := Json.skipSpace_of_isSpace_eq_false (c := '\x7b') (by decide)
    ('"' :: 'n' :: '"' :: ':' :: (digits ++ ['\x7d']))
  have hvalue (fuel : ℕ) : Json.Reader.value (fuel + 1) none (digits ++ ['\x7d']) =
      (.error ⟨.longInteger digits.length, _⟩ : Except Json.Fault (Value × List Char)) :=
    (h.value_append fuel ['\x7d']).trans
      (h.number_long (Json.endsValue_cons (by decide) []) _ false hlong)
  have hmembers (fuel : ℕ) : Json.Reader.members (fuel + 2) none
      ('"' :: 'n' :: '"' :: ':' :: (digits ++ ['\x7d'])) =
      (.error ⟨.longInteger digits.length, (digits ++ ['\x7d']).length⟩ :
        Except Json.Fault (List (List Json.Sign × Value) × List Char)) := by
    simp only [Json.Reader.members, htext, hcolon, hspace, hvalue, bind, Except.bind]
  rw [Json.readWithin, numberMap, String.toList_ofList, Json.readChars, if_neg (by simp), hbrace]
  simp only [List.length_cons, List.length_append]
  simp [Json.Reader.value, Json.Reader.enter?, hquote, hmembers, bind, Except.bind]

/-- So it is not relabelled. -/
theorem relabelWithin_numberMap {digits : List Char} (h : Json.IsWhole digits)
    (hlong : Json.maxDigits < digits.length) (outFile : Option String) (file : String) :
    relabelWithin .unbounded outFile file (numberMap digits) =
      .error (.longNumber digits.length) := by
  rw [relabelWithin, Json.Room.unbounded, readWithin_numberMap h hlong]
  rfl

/-- A map with an empty list. -/
def listMap : String := String.ofList ['\x7b', '"', 'n', '"', ':', '[', ']', '\x7d']

theorem isText_listMap :
    Json.IsText Json.maxDigits 2 listMap (.obj [(Json.signsOf "n", .arr [])] : Value) := by
  have hname : Json.IsQuoted ['n'] (Json.signsOf "n") := isQuoted_plain (s := ['n']) (by decide)
  have hmap := @Json.Writes.obj _ _ _ Json.maxDigits 1
    [⟨[], ['n'], [], Json.signsOf "n", ⟨[], ['[', ']'], [], (.arr [] : Value)⟩⟩]
    (List.cons_ne_nil _ _) (List.forall_mem_singleton.2 ⟨Json.isBlank_nil, Json.isBlank_nil, hname,
      Json.isBlank_nil, Json.isBlank_nil⟩) (List.forall_mem_singleton.2 (.nil Json.isBlank_nil))
  exact ⟨[], _, [], Json.isBlank_nil, hmap, Json.isBlank_nil, rfl⟩

/-- Such a map says nothing of sources. -/
theorem hasSources_nil (value : Value) : HasSources [(Json.signsOf "n", value)] [] :=
  .missing (by rw [Table.get?_cons, if_neg (by decide), Table.get?_nil])

/-- An object without sources is refused for an integer with one digit more than are converted, and
another one where there is no room for its levels. -/
theorem exists_refused_map :
    (∃ map n, Json.IsText (Json.maxDigits + 1) 1 map (.obj [(Json.signsOf "n", .int n)] : Value) ∧
      HasSources [(Json.signsOf "n", .int n)] [] ∧
      relabelWithin .unbounded none "a.scss" map = .error (.longNumber (Json.maxDigits + 1))) ∧
    ∃ map, Json.IsText Json.maxDigits 2 map (.obj [(Json.signsOf "n", .arr [])] : Value) ∧
      HasSources [(Json.signsOf "n", .arr [])] [] ∧
      relabelWithin ⟨some 1, some 1⟩ none "a.scss" map =
        .error (.raised (Json.nestingMessage "decoding a JSON array from a unicode string")) := by
  have hlength : (List.replicate (Json.maxDigits + 1) '1').length = Json.maxDigits + 1 :=
    List.length_replicate
  have hwhole : Json.IsWhole (List.replicate (Json.maxDigits + 1) '1') := by
    refine ⟨List.cons_ne_nil _ _, fun c hc => ?_, fun hzero => ?_⟩
    · rw [List.eq_of_mem_replicate hc]
      rfl
    · rw [List.replicate_succ] at hzero
      exact absurd hzero (by decide)
  have htext := isText_numberMap hwhole
  have hrefused := relabelWithin_numberMap hwhole (by omega) none "a.scss"
  rw [hlength] at htext hrefused
  have hread : (Json.readWithin (some 1) listMap : Except Json.Fault Value) =
      .error ⟨.nesting "array", 3⟩ := by
    rw [Json.readWithin, listMap, String.toList_ofList]
    rfl
  refine ⟨⟨_, _, htext, hasSources_nil _, hrefused⟩, listMap, isText_listMap, hasSources_nil _, ?_⟩
  rw [relabelWithin, hread]
  rfl

/-! ## A map and its labels -/

/-- A request that names its output. -/
def siteRequest : Request := { Request.default "" "site.scss" with outFile := some "site.css" }

/-- A map in which the inline text is a source, with blanks and an escape. -/
def siteMap : String := "\x7b\"sources\" : [\"\\u0073tdin\", 1]\x7d\n"

/-- The sources of that map. -/
def siteSources : List Value := [textValue inlineSource, .int 1]

/-- That map writes its sources. -/
theorem isText_siteMap :
    Json.IsText Json.maxDigits 2 siteMap (.obj [(sourcesKey, .arr siteSources)]) := by
  have hunit : Json.IsUnit (((0 * 16 + 0) * 16 + 7) * 16 + 3) ['0', '0', '7', '3'] :=
    .mk rfl rfl rfl rfl
  have hstdin : Json.IsQuoted ('\\' :: 'u' :: ['0', '0', '7', '3'] ++ ['t', 'd', 'i', 'n'])
      (Json.signsOf inlineSource) :=
    .cons (.unit hunit) (isQuoted_plain (s := ['t', 'd', 'i', 'n']) (by decide))
  have hone : Json.Writes Json.maxDigits 0 ['1'] (.int 1 : Value) :=
    .int ⟨by decide, List.forall_mem_singleton.2 rfl, by decide⟩ (by decide)
  have hrow : Json.Writes Json.maxDigits 1 "[\"\\u0073tdin\", 1]".toList
      (.arr siteSources : Value) :=
    @Json.Writes.arr _ _ _ _ _ [⟨[], _, [], textValue inlineSource⟩, ⟨[' '], _, [], .int 1⟩]
      (List.cons_ne_nil _ _) (by decide)
      (List.forall_mem_cons.2 ⟨.str hstdin, List.forall_mem_singleton.2 hone⟩)
  have hmap : Json.Writes Json.maxDigits 2 "\x7b\"sources\" : [\"\\u0073tdin\", 1]\x7d".toList
      (.obj [(sourcesKey, .arr siteSources)] : Value) :=
    @Json.Writes.obj _ _ _ _ _
      [⟨[], "sources".toList, [' '], sourcesKey, ⟨[' '], _, [], .arr siteSources⟩⟩]
      (List.cons_ne_nil _ _)
      (List.forall_mem_singleton.2 ⟨by decide, by decide, isQuoted_plain (by decide), by decide⟩)
      (List.forall_mem_singleton.2 hrow)
  exact ⟨[], _, ['\n'], by decide, hmap, by decide, rfl⟩

/-- The labels of a map with two sources, one of which is the inline text. -/
theorem relabel_changes_labels_site : ∃ label labelled,
    Json.IsText Json.maxDigits 2 siteMap (.obj [(sourcesKey, .arr siteSources)]) ∧
      relabelWithin ⟨some 2, some 2⟩ siteRequest.outFile siteRequest.file siteMap = .ok label ∧
      Json.readWithin (some 2) label = .ok (.obj labelled : Value) ∧
      Labels siteRequest [(sourcesKey, .arr siteSources)] siteSources labelled ∧
      relabelWithin ⟨some 2, some 2⟩ siteRequest.outFile siteRequest.file label = .ok label := by
  obtain ⟨label, labelled, hlabel, -, hread, hlabels, hagain⟩ :=
    @relabel_changes_labels siteRequest ⟨some 2, some 2⟩ siteMap 2 _ siteSources isText_siteMap
      (.listed rfl .items) (by decide) (by decide)
  exact ⟨label, labelled, isText_siteMap, hlabel, hread, hlabels, hagain⟩

end StyleBundle.SourceMap
