import JsonShape.Proofs.Precedence

/-!
# Saved settings load back

Settings are saved as a mapping with one line for each setting. A value that can be used is a
boolean or a text without gaps : the prefix is an identifier, and upper-casing a level keeps its
gaps, which no level has. So the file is one that is read back (`Yaml.Line.read_print`), whatever
a plain text in it would mean and whatever has to be escaped, and loading it without variables
gives the settings that were saved (`load_of_save`).
-/

namespace JsonShape

open Yaml (Gapless Line LineValue)

/-! ## Usable values -/

namespace Text

theorem gapless_of_isIdentifier {s : String} (h : isIdentifier s = true) : Gapless s.toList := by
  have hchars : ∀ c ∈ s.toList, isIdentifierContinue c = true := by
    rw [isIdentifier] at h
    split at h
    · cases h
    · rename_i c rest hs
      obtain ⟨hstart, hrest⟩ := Bool.and_eq_true_iff.1 h
      intro d hd
      rcases List.mem_cons.1 (hs ▸ hd) with rfl | hd
      · simp [isIdentifierContinue, hstart]
      · exact List.all_eq_true.1 hrest d hd
  have hgap : isIdentifierContinue ' ' = false ∧ isIdentifierContinue '\n' = false := by decide
  exact ⟨fun hmem => absurd (hchars _ hmem) (by simp [hgap]),
    fun hmem => absurd (hchars _ hmem) (by simp [hgap])⟩

/-- A gap is its own upper-case form. -/
theorem gapless_of_upper {s : String} (h : Gapless (upper s).toList) : Gapless s.toList := by
  have hgap : upperChar ' ' = [' '] ∧ upperChar '\n' = ['\n'] := by decide
  have hupper : ∀ c ∈ s.toList, upperChar c = [c] → c ∈ (upper s).toList := by
    intro c hc hown
    rw [upper, String.toList_ofList]
    exact List.mem_flatMap.2 ⟨c, hc, by simp [hown]⟩
  exact ⟨fun hmem => h.1 (hupper _ hmem hgap.1), fun hmem => h.2 (hupper _ hmem hgap.2)⟩

end Text

namespace Settings

/-- A value that can be used stands on the line of its key. -/
theorem exists_lineValue {k : Setting} {v : Value} (h : isUsable k v = true) :
    ∃ l : LineValue, l.value = v := by
  unfold isUsable at h
  split at h
  · rename_i s
    have hname : s ∈ OutputFormat.all.map OutputFormat.name := by
      obtain ⟨f, hf⟩ := Option.isSome_iff_exists.1 h
      exact List.mem_map.2 ⟨f, List.mem_of_find?_eq_some hf, by simpa using List.find?_some hf⟩
    have hnames : ∀ name ∈ OutputFormat.all.map OutputFormat.name, Gapless name.toList := by decide
    exact ⟨.text s (hnames s hname), rfl⟩
  · have hmodes : ∀ mode ∈ Highlight.modes, Gapless mode.toList := by decide
    exact ⟨.text _ (hmodes _ (List.contains_iff_mem.1 h)), rfl⟩
  · exact ⟨.text _ (Text.gapless_of_isIdentifier h), rfl⟩
  · exact ⟨.bool _, rfl⟩
  · exact ⟨.bool _, rfl⟩
  · have hlevels : ∀ name ∈ Log.Level.settingNames, Gapless name.toList := by decide
    exact ⟨.text _ (Text.gapless_of_upper (hlevels _ (List.contains_iff_mem.1 h))), rfl⟩
  · cases h

/-! ## The file -/

/-- The line of a setting. -/
def line (k : Setting) (v : LineValue) : Line where
  key := k.key
  value := v
  word := by cases k <;> exact ⟨by decide, by decide⟩
  isText := by cases k <;> decide
  short := by cases k <;> decide

/-- A file gives a setting the value under its key. -/
theorem fileValue?_of_mem {entries : List (Value × Value)} {k : Setting} {v : Value}
    (h : Value.DistinctKeys entries) (hmem : (.text k.key, v) ∈ entries) :
    fileValue? entries k = some v := by
  induction entries with
  | nil => cases hmem
  | cons e entries ih =>
    obtain ⟨hfirst, hrest⟩ := List.pairwise_cons.1 h
    rw [fileValue?_cons]
    rcases List.mem_cons.1 hmem with rfl | hmem
    · rw [if_pos (Value.sameKey_text.2 rfl)]
    · rw [if_neg (Bool.eq_false_iff.1 (hfirst _ hmem)), ih hrest hmem]

/-- The text of settings that can be used is read as a mapping of their values. -/
theorem read_fileText {s : Settings} (h : ∀ k, isUsable k (s.get k) = true) :
    ∃ entries, Yaml.read s.fileText = .ok (.object entries) ∧
      (∀ c ∈ s.fileText.toList, Yaml.isOrdinary c = true) ∧
      ∀ k, (.text k.key, s.get k) ∈ entries := by
  choose value hvalue using fun k => exists_lineValue (h k)
  let lines := Setting.all.map fun k => line k (value k)
  have hentry : ∀ k, (line k (value k)).entry = (.text k.key, s.get k) := by
    intro k
    rw [← hvalue k]
    rfl
  have htext : s.fileText = Yaml.print (lines.map Line.entry) := by
    simp [fileText, entries, lines, Function.comp_def, hentry]
  have hne : lines ≠ [] := by simp [lines, Setting.all]
  have hkeys : (lines.map Line.key).Nodup := by
    rw [List.map_map]
    exact (by decide : (Setting.all.map Setting.key).Nodup)
  rw [htext]
  refine ⟨_, Line.read_print hne hkeys, ?_, fun k => ?_⟩
  · rw [Line.print_lines hne, String.toList_ofList]
    exact Line.isOrdinary_text _
  · rw [← hentry k]
    refine List.mem_map_of_mem ((Line.sorted_perm lines).mem_iff.2 (List.mem_map_of_mem ?_))
    cases k <;> decide

theorem exists_write_of_save {s : Settings} {files files' : FileTree} {path : String}
    (h : s.save files path = .ok files') :
    ∃ t : FileTree, t.write path (Utf8.encode s.fileText) = .ok files' := by
  obtain ⟨made, -, hwrite⟩ := FileTree.exists_write_of_writeWithParents h
  exact ⟨made, hwrite⟩

/-- A file that was saved holds the values. -/
theorem holdsMapping_of_save {s : Settings} {files files' : FileTree} {path : String}
    (h : ∀ k, isUsable k (s.get k) = true) (hsave : s.save files path = .ok files') :
    ∃ entries, HoldsMapping files' path entries ∧ ∀ k, fileValue? entries k = some (s.get k) := by
  obtain ⟨entries, hread, hordinary, hvalues⟩ := read_fileText h
  obtain ⟨t, hwrite⟩ := exists_write_of_save hsave
  have hascii : (s.fileText.toList.all fun c => c.toNat < 0x80 && c != '\r') = true := by
    refine List.all_eq_true.2 fun c hc => ?_
    have hne : c ≠ '\r' := by
      rintro rfl
      exact absurd (hordinary _ hc) (by decide)
    rcases Yaml.isOrdinary_iff.1 (hordinary c hc) with rfl | hc
    · rfl
    · simpa [hne] using Nat.lt_of_le_of_lt hc.2 (by decide)
  have hfile := holdsMapping_of_text (FileTree.read_of_write hwrite) hascii hread
  exact ⟨entries, hfile, fun k => fileValue?_of_mem hfile.distinctKeys (hvalues k)⟩

/-- Nothing is saved at the empty path, so the path is the file to load. -/
theorem chooseFile?_of_save {s : Settings} {files files' : FileTree} {path : String} (w : World)
    (hsave : s.save files path = .ok files') : chooseFile? w (some path) = some path := by
  have hpath : path ≠ "" := by
    rintro rfl
    obtain ⟨t, hwrite⟩ := exists_write_of_save hsave
    obtain ⟨place, hplace, -⟩ := FileTree.eq_put_of_write hwrite
    cases (FileTree.resolve_of_filePlace hplace).1
  simp [chooseFile?]

end Settings

open Settings in
/-- Settings that can be used are loaded from the file in which they were saved, if no variable
changes them. -/
theorem load_of_save {s : Settings} {w : World} {path : String} {files : FileTree}
    (hvalid : s.problem? = none) (hsave : s.save w.files path = .ok files)
    (hunset : ∀ k : Setting, w.environmentValue? k.variableName = none) :
    (load { w with files := files } (some path)).1 = .ok s := by
  have hvalidated : s.validated = .ok s := by rw [validated, hvalid]
  have husable := (validated_eq_ok_iff.1 hvalidated).2
  obtain ⟨entries, hfile, hvalues⟩ := holdsMapping_of_save husable hsave
  refine (load_eq_ok_iff (chooseFile?_of_save _ hsave) hfile).2 fun k => ?_
  have hvariable : World.environmentValue? { w with files } k.variableName = none := hunset k
  refine ⟨?_, ?_, husable k⟩
  · rintro ⟨hset, -⟩
    rw [hvariable] at hset
    cases hset
  · rw [effective?, hvariable, hvalues]
    rfl

/-- Settings with a prefix that read plain is a boolean, and a level whose capital form comes from
a letter beyond ASCII. -/
def Settings.misleading : Settings :=
  { recordPrefix := .text "yes", logLevel := .text "warn\u0131ng" }

open Settings in
/-- Misleading settings, saved in a directory that is made for them. -/
theorem load_of_save_misleading : misleading.problem? = none ∧
    ∃ files, misleading.save {} "conf/c.yml" = .ok files ∧
      (load { files } (some "conf/c.yml")).1 = .ok misleading := by
  have hvalid : misleading.problem? = none := rfl
  have hsave : ∃ files, misleading.save {} "conf/c.yml" = .ok files := ⟨_, rfl⟩
  obtain ⟨files, hsave⟩ := hsave
  exact ⟨hvalid, files, hsave, load_of_save (w := {}) hvalid hsave fun _ => rfl⟩

end JsonShape
