import StyleBundle.Cache.Entry
import StyleBundle.Proofs.Json.Reading
import StyleBundle.Proofs.Text.Utf8

/-!
# Stored entries

An entry is read back from what was stored for it, byte by byte: the schema accepts its members, and
the way through JSON and UTF-8 loses nothing.
-/

namespace StyleBundle.Cache.Entry

/-- A list of texts passes its check. -/
theorem textItems_map_str (place : List Place) (index : Nat) (ss : List String) :
    textItems place index (ss.map Json.str) = .ok ss := by
  induction ss generalizing index with
  | nil => rfl
  | cons s rest ih => simp only [List.map_cons, textItems, text, ih]

/-- The members of an entry pass the schema. -/
theorem ofJson_toJson (e : Entry) : ofJson e.toJson = .ok e := by
  have htexts := textItems_map_str [.key "dependencies"] 0 e.dependencies
  obtain ⟨version, path, tag, contents, sourceMap, dependencies⟩ := e
  cases sourceMap with
  | none => simp [toJson, ofJson, ofMembers, member, Table.get?, text, texts, optionalText, htexts,
      memberNames]
  | some map => simp [toJson, ofJson, ofMembers, member, Table.get?, text, texts, optionalText,
      htexts, memberNames]

/-- An entry is a plain value of two levels. -/
theorem isPlain_toJson (e : Entry) : Json.IsPlain Json.maxDigits 2 e.toJson := by
  have hstr (s : String) : Json.IsPlain Json.maxDigits 1 (.str s) := .str (Json.isChars_string s)
  have hmap : Json.IsPlain Json.maxDigits 1 ((e.sourceMap.map Json.str).getD .null) := by
    cases e.sourceMap with
    | none => exact .null
    | some map => exact hstr map
  have hdependencies : Json.IsPlain Json.maxDigits 1 (.arr (e.dependencies.map Json.str)) :=
    .arr (List.forall_mem_map.2 fun s _ => .str (Json.isChars_string s))
  refine .obj (by simp [Table.keys]) (fun member _ => Json.isChars_string _) ?_
  simpa using ⟨hstr e.version, hstr e.path, hstr e.tag, hstr e.contents, hmap, hdependencies⟩

/-- An entry is read back from its text. -/
theorem read_print (e : Entry) : read e.print = .ok e := by
  have hread : Json.read e.print = .ok e.toJson :=
    Json.readWithin_print Json.Style.isPlain_compact e.isPlain_toJson nofun
  simp only [read, hread, ofJson_toJson]

/-- The bytes stored for an entry are read as its text. -/
theorem textOf_encode_print (e : Entry) :
    Disk.textOf (Text.Utf8.encode e.print.toList) = .ok e.print := by
  apply Disk.textOf_encode
  intro hreturn
  rw [print, Json.print, String.toList_ofList] at hreturn
  exact absurd (e.isPlain_toJson.printable Json.Style.isPlain_compact _ hreturn) (by decide)

end StyleBundle.Cache.Entry
