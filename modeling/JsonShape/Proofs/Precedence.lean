import JsonShape.Proofs.Encoding
import JsonShape.Proofs.Files
import JsonShape.Proofs.YamlMapping
import JsonShape.Settings.File

/-!
# Which layer a setting comes from

A setting has a value from its environment variable, else from the file, else by default
(`Settings.effective?`). A variable holds a text, which for a switch must be a word for true or
false.

Loading reads a variable by the kind of the value that it finds, and not by the kind of the
setting. So a file that gives a setting a value of the other kind spoils its variable
(`Settings.Misread`), although the variable should win. That is the only way in which loading
departs from the layers : it succeeds exactly if no variable is misread and all effective values
can be used, and then gives these values (`load_succeeds_iff`).
-/

namespace JsonShape

/-! ## Objects -/

namespace Value

/-- The value is a boolean. -/
def isBool : Value → Bool
  | .bool _ => true
  | _ => false

theorem distinctKeys_setEntry {entries : List (Value × Value)} (h : DistinctKeys entries)
    (key value : Value) : DistinctKeys (setEntry entries key value) := by
  unfold setEntry
  split_ifs with hany
  · have hkey : ∀ e : Value × Value, (if e.1.sameKey key then (e.1, value) else e).1 = e.1 := by
      intro e
      split <;> rfl
    refine List.pairwise_map.2 (h.imp fun hab => ?_)
    rwa [hkey, hkey]
  · refine List.pairwise_append.2 ⟨h, List.pairwise_singleton _ _, fun a ha b hb => ?_⟩
    obtain rfl := List.mem_singleton.1 hb
    exact Bool.eq_false_iff.2 fun hsame => hany (List.any_eq_true.2 ⟨a, ha, hsame⟩)

theorem distinctKeys_of_ofEntries {given entries : List (Value × Value)}
    (h : ofEntries given = .object entries) : DistinctKeys entries := by
  have hfold : ∀ acc, DistinctKeys acc →
      DistinctKeys (given.foldl (fun acc e => setEntry acc e.1 e.2) acc) := by
    clear h
    induction given with
    | nil => exact fun _ hacc => hacc
    | cons e given ih => exact fun acc hacc => ih _ (distinctKeys_setEntry hacc e.1 e.2)
  obtain rfl := Value.object.inj h
  exact hfold [] List.Pairwise.nil

end Value

/-! ## Objects in YAML -/

namespace Yaml

theorem scalarValue_ne_object (tag : Tag) (s : String) (entries : List (Value × Value)) :
    scalarValue tag s ≠ .ok (.object entries) := by
  intro h
  cases tag <;> simp only [scalarValue, boolValue, intValue, floatValue, binaryValue,
    timestampValue] at h <;> (repeat' split at h) <;> cases h

theorem Node.scalarOf_ne_object (env : List (String × Node)) (fuel : Nat) (n : Node)
    (entries : List (Value × Value)) : n.scalarOf env fuel ≠ .ok (.object entries) := by
  intro h
  simp only [scalarOf] at h
  split at h
  · cases h
  · cases h
  · cases h
  · split at h
    · exact scalarValue_ne_object _ _ _ h
    · cases h

theorem Node.distinctKeys_of_toValue {env : List (String × Node)} {size fuel : Nat}
    {opened : List String} {n : Node} {entries : List (Value × Value)}
    (h : toValue env size fuel opened n = .object entries) : Value.DistinctKeys entries := by
  have hscalar : ∀ m : Node, ((m.scalarOf env size).toOption).getD .null ≠ .object entries := by
    intro m hm
    cases hof : m.scalarOf env size with
    | error fault => simp [hof, Except.toOption] at hm
    | ok v =>
      rw [hof] at hm
      exact m.scalarOf_ne_object env size entries (hof.trans (congrArg Except.ok hm))
  cases fuel with
  | zero => cases h
  | succ fuel =>
    rw [toValue] at h
    split_ifs at h with hopened
    · unfold ellipsis at h
      split at h <;> cases h
    · simp only at h
      split at h
      · cases h
      · cases h
      · split_ifs at h
        · exact Value.distinctKeys_of_ofEntries h
        · cases h
        · exact absurd h (hscalar _)
      · exact absurd h (hscalar _)

/-- An object in a document has no key twice. -/
theorem distinctKeys_of_read {text : String} {entries : List (Value × Value)}
    (h : read text = .ok (.object entries)) : Value.DistinctKeys entries := by
  rw [read] at h
  cases htokens : tokens text with
  | error fault => simp [htokens, bind, Except.bind] at h
  | ok found =>
    cases hnode : Node.ofTokens found with
    | error fault => simp [htokens, hnode, bind, Except.bind] at h
    | ok n? =>
      cases n? with
      | none => simp [htokens, hnode, bind, Except.bind] at h
      | some n =>
        simp only [htokens, hnode, bind, Except.bind, Node.value] at h
        split at h
        · cases h
        · split at h
          · cases h
          · exact Node.distinctKeys_of_toValue (Except.ok.inj h)

end Yaml

/-! ## Layers -/

namespace Setting

/-- The setting is on or off. -/
def isSwitch : Setting → Bool
  | .optionalFields | .coerceNumericStrings => true
  | _ => false

theorem mem_checked (k : Setting) : k ∈ checked := by
  cases k <;> decide

theorem nodup_checked : checked.Nodup := by
  decide

theorem ofKey?_eq_some_iff {name : String} {k : Setting} : ofKey? name = some k ↔ name = k.key := by
  constructor
  · intro h
    rw [ofKey?] at h
    have hkey := List.find?_some h
    exact (beq_iff_eq.1 hkey).symm
  · rintro rfl
    cases k <;> rfl

/-- The setting that a key of a file names. -/
def named? : Value → Option Setting
  | .text name => ofKey? name
  | _ => none

theorem named?_eq_some_iff {v : Value} {k : Setting} :
    named? v = some k ↔ v.sameKey (.text k.key) = true := by
  rw [Value.sameKey_text]
  cases v <;> simp [named?, ofKey?_eq_some_iff]

end Setting

namespace Settings

variable {w : World} {entries : List (Value × Value)}

/-- The value that a file gives a setting. -/
def fileValue? (entries : List (Value × Value)) (k : Setting) : Option Value :=
  (entries.find? fun e => e.1.sameKey (.text k.key)).map Prod.snd

/-- The value that the text of its variable gives a setting. -/
def variableValue? (k : Setting) (text : String) : Option Value :=
  if k.isSwitch then (boolOfText? text).map .bool else some (.text text)

/-- The value of a setting by its layers : the variable, else the file, else the default. There is
none where the variable of a switch holds no word for true or false. -/
def effective? (w : World) (entries : List (Value × Value)) (k : Setting) : Option Value :=
  match w.environmentValue? k.variableName with
  | some text => variableValue? k text
  | none => some ((fileValue? entries k).getD (({} : Settings).get k))

/-- The variable of a setting is set and the file gives the setting a value of the other kind : a
boolean to one that is no switch, or something else to a switch. -/
def Misread (w : World) (entries : List (Value × Value)) (k : Setting) : Prop :=
  (w.environmentValue? k.variableName).isSome = true ∧
    ∃ v, fileValue? entries k = some v ∧ v.isBool ≠ k.isSwitch

/-- The file at the path holds a YAML mapping with the entries. -/
def HoldsMapping (files : FileTree) (path : String) (entries : List (Value × Value)) : Prop :=
  ∃ content text, files.read path = .ok content ∧ Utf8.decode content = .ok text ∧
    Yaml.read (String.ofList (Text.lineFeeds text.toList)) = .ok (.object entries)

/-! ### Settings as functions -/

theorem ext_get {s t : Settings} (h : ∀ k, s.get k = t.get k) : s = t := by
  obtain ⟨_, _, _, _, _, _⟩ := s
  obtain ⟨_, _, _, _, _, _⟩ := t
  simpa [get] using
    ⟨h .outputFormat, h .colorMode, h .recordPrefix, h .optionalFields, h .coerceNumericStrings,
      h .logLevel⟩

@[simp] theorem get_set_self (s : Settings) (k : Setting) (v : Value) : (s.set k v).get k = v := by
  cases k <;> rfl

@[simp] theorem get_set_of_ne (s : Settings) {k l : Setting} (h : l ≠ k) (v : Value) :
    (s.set k v).get l = s.get l := by
  cases k <;> cases l <;> first | rfl | exact absurd rfl h

/-- The settings with the given values. -/
def ofValues (value : Setting → Value) : Settings :=
  ⟨value .outputFormat, value .colorMode, value .recordPrefix, value .optionalFields,
    value .coerceNumericStrings, value .logLevel⟩

theorem get_ofValues (value : Setting → Value) (k : Setting) :
    (ofValues value).get k = value k := by
  cases k <;> rfl

/-! ### The file -/

theorem fileValue?_cons (e : Value × Value) (entries : List (Value × Value)) (k : Setting) :
    fileValue? (e :: entries) k =
      if e.1.sameKey (.text k.key) then some e.2 else fileValue? entries k := by
  unfold fileValue?
  rw [List.find?_cons]
  split <;> simp_all

/-- One entry sets the setting that its key names, if it names one. -/
theorem setEntries_cons (path : String) (e : Value × Value) (rest : List (Value × Value))
    (s : Settings) : (setEntries path (e :: rest) s).1 =
      (setEntries path rest (match Setting.named? e.1 with
        | some k => s.set k e.2
        | none => s)).1 := by
  obtain ⟨key, v⟩ := e
  cases key with
  | text name =>
    cases hname : Setting.ofKey? name <;>
      simp only [setEntries, setEntries.unknown, Setting.named?, hname]
  | _ => simp only [setEntries, setEntries.unknown, Setting.named?]

/-- A file sets the settings that it names and leaves the others. -/
theorem get_setEntries (path : String) {entries : List (Value × Value)}
    (h : Value.DistinctKeys entries) (s : Settings) (k : Setting) :
    (setEntries path entries s).1.get k = (fileValue? entries k).getD (s.get k) := by
  induction entries generalizing s with
  | nil =>
    rw [setEntries]
    rfl
  | cons e entries ih =>
    obtain ⟨hfirst, hrest⟩ := List.pairwise_cons.1 h
    rw [setEntries_cons, ih hrest, fileValue?_cons]
    by_cases hk : e.1.sameKey (.text k.key) = true
    · have hnone : fileValue? entries k = none := by
        have hkey := Value.sameKey_text.1 hk
        refine Option.map_eq_none_iff.2 (List.find?_eq_none.2 fun b hb hsame => ?_)
        have hbkey := Value.sameKey_text.1 hsame
        have hdistinct := hfirst b hb
        rw [hkey, hbkey] at hdistinct
        cases (Value.sameKey_text.2 rfl).symm.trans hdistinct
      rw [Setting.named?_eq_some_iff.2 hk, if_pos hk, hnone]
      simp
    · rw [if_neg hk]
      congr 1
      split
      · rename_i l hl
        have hne : k ≠ l := by
          rintro rfl
          exact hk (Setting.named?_eq_some_iff.1 hl)
        exact get_set_of_ne s hne e.2
      · rfl

/-! ### The environment -/

/-- What reading its variable, if it is set, makes of the value of a setting. -/
def afterVariable (w : World) (k : Setting) (current : Value) : Except Report Value :=
  match w.environmentValue? k.variableName with
  | none => .ok current
  | some text => readVariable k current text

theorem applyVariables_cons (w : World) (k : Setting) (ks : List Setting) (s : Settings) :
    applyVariables w.environmentValue? (k :: ks) s =
      match afterVariable w k (s.get k) with
      | .error r => .error r
      | .ok v => applyVariables w.environmentValue? ks (s.set k v) := by
  have hself : s.set k (s.get k) = s := by cases k <;> rfl
  rw [applyVariables, afterVariable]
  cases w.environmentValue? k.variableName with
  | none => simp only [hself]
  | some text => rfl

/-- Variables that are read one after the other do not get in each other's way. -/
theorem applyVariables_eq_ok_iff {ks : List Setting} (hks : ks.Nodup) {s t : Settings} :
    applyVariables w.environmentValue? ks s = .ok t ↔
      ∀ k, if k ∈ ks then afterVariable w k (s.get k) = .ok (t.get k) else t.get k = s.get k := by
  induction ks generalizing s with
  | nil =>
    simp only [applyVariables, Except.ok.injEq, List.not_mem_nil, if_false]
    exact ⟨fun h k => by rw [h], fun h => ext_get fun k => (h k).symm⟩
  | cons l ks ih =>
    obtain ⟨hl, hks⟩ := List.nodup_cons.1 hks
    rw [applyVariables_cons]
    cases hv : afterVariable w l (s.get l) with
    | error r =>
      simp only [reduceCtorEq, false_iff]
      intro h
      have hl := h l
      simp [hv] at hl
    | ok v =>
      simp only [ih hks]
      constructor
      · intro h k
        have hk := h k
        by_cases hkl : k = l
        · subst hkl
          simp only [hl, if_false, get_set_self] at hk
          simp [hv, hk]
        · simpa [hkl] using hk
      · intro h k
        have hk := h k
        by_cases hkl : k = l
        · subst hkl
          simp only [hl, if_false, get_set_self]
          simp only [List.mem_cons_self, if_true, hv] at hk
          exact (Except.ok.inj hk).symm
        · simpa [hkl] using hk

theorem validated_eq_ok_iff {s t : Settings} :
    s.validated = .ok t ↔ s = t ∧ ∀ k, isUsable k (s.get k) = true := by
  have hproblem : s.problem? = none ↔ ∀ k, isUsable k (s.get k) = true := by
    simp only [problem?, Option.map_eq_none_iff, List.find?_eq_none, Setting.mem_checked,
      forall_const, Bool.not_eq_true', Bool.not_eq_false]
  rw [← hproblem, validated]
  cases s.problem? with
  | some r => simp
  | none => simp

/-- The environment and the check give settings whose values are the ones that each variable makes
of the value it finds. -/
theorem finish_eq_ok_iff {s t : Settings} : finish w s = .ok t ↔
    ∀ k, afterVariable w k (s.get k) = .ok (t.get k) ∧ isUsable k (t.get k) = true := by
  have hvariables : ∀ u, applyVariables w.environmentValue? Setting.checked s = .ok u ↔
      ∀ k, afterVariable w k (s.get k) = .ok (u.get k) := by
    intro u
    simp only [applyVariables_eq_ok_iff Setting.nodup_checked, Setting.mem_checked, if_true]
  rw [finish, forall_and, ← hvariables]
  cases applyVariables w.environmentValue? Setting.checked s with
  | error r => simp
  | ok u =>
    simp only [mapError_eq_ok_iff, validated_eq_ok_iff, Except.ok.injEq]
    exact and_congr_right fun h => h ▸ Iff.rfl

/-! ### Misread variables -/

theorem readVariable_of_isBool {k : Setting} {current : Value} (h : current.isBool = true)
    (text : String) (v : Value) :
    readVariable k current text = .ok v ↔ (boolOfText? text).map Value.bool = some v := by
  cases current with
  | bool b => cases hb : boolOfText? text <;> simp [readVariable, hb]
  | _ => cases h

theorem readVariable_of_not_isBool {k : Setting} {current : Value} (h : current.isBool = false)
    (text : String) : readVariable k current text = .ok (.text text) := by
  cases current with
  | bool b => cases h
  | _ => rfl

theorem isUsable_text_of_isSwitch {k : Setting} (h : k.isSwitch = true) (text : String) :
    isUsable k (.text text) = false := by
  cases k <;> first | rfl | cases h

theorem isUsable_bool_of_not_isSwitch {k : Setting} (h : k.isSwitch = false) (b : Bool) :
    isUsable k (.bool b) = false := by
  cases k <;> first | rfl | cases h

theorem isBool_default (k : Setting) : (({} : Settings).get k).isBool = k.isSwitch := by
  cases k <;> rfl

/-- The value that a variable finds is of the other kind only if the file has put it there. -/
theorem misread_iff {k : Setting} {text : String}
    (h : w.environmentValue? k.variableName = some text) :
    Misread w entries k ↔
      ((fileValue? entries k).getD (({} : Settings).get k)).isBool ≠ k.isSwitch := by
  cases hfile : fileValue? entries k <;> simp [Misread, h, hfile, isBool_default]

/-- Reading a variable gives a usable value exactly if the variable is not misread and the
effective value is usable. -/
theorem usable_afterVariable_iff {k : Setting} {v : Value} :
    afterVariable w k ((fileValue? entries k).getD (({} : Settings).get k)) = .ok v ∧
        isUsable k v = true ↔
      ¬Misread w entries k ∧ effective? w entries k = some v ∧ isUsable k v = true := by
  cases henv : w.environmentValue? k.variableName with
  | none => simp [afterVariable, effective?, Misread, henv]
  | some text =>
    rw [misread_iff henv, not_not]
    simp only [afterVariable, effective?, variableValue?, henv]
    generalize (fileValue? entries k).getD (({} : Settings).get k) = found
    cases hswitch : k.isSwitch with
    | true =>
      cases hbool : found.isBool with
      | true => simp [readVariable_of_isBool hbool]
      | false =>
        rw [readVariable_of_not_isBool hbool]
        simp only [Bool.false_eq_true, false_and, iff_false, not_and]
        intro hv
        obtain rfl := Except.ok.inj hv
        simp [isUsable_text_of_isSwitch hswitch]
    | false =>
      cases hbool : found.isBool with
      | true =>
        simp only [readVariable_of_isBool hbool, Bool.true_eq_false, false_and, iff_false, not_and]
        intro hv
        obtain ⟨b, -, rfl⟩ := Option.map_eq_some_iff.1 hv
        simp [isUsable_bool_of_not_isSwitch hswitch]
      | false => simp [readVariable_of_not_isBool hbool]

/-! ### Loading -/

/-- Loading starts from the file's entries. -/
theorem load_eq_finish {path : Option String} {p : String} (hpath : chooseFile? w path = some p)
    (hfile : HoldsMapping w.files p entries) :
    (load w path).1 = finish w (setEntries p entries {}).1 := by
  obtain ⟨content, text, hread, hdecode, hyaml⟩ := hfile
  have hfind : w.files.find p = .ok (.file content) := by
    rw [FileTree.read] at hread
    split at hread
    · cases hread
    · cases hread
    · rename_i found hfind
      rw [hfind, Except.ok.inj hread]
  have hpresent := FileTree.isPresent_plain hfind
  have hentries : readEntries p content = .ok entries := by
    rw [readEntries, hdecode]
    simp only [hyaml]
  rw [load, hpath]
  simp [loadFile, hpresent, hread, hentries]

/-- A file holds the mapping that is read from its text. -/
theorem holdsMapping_of_text {files : FileTree} {p text : String}
    (hread : files.read p = .ok (Utf8.encode text))
    (htext : (text.toList.all fun c => c.toNat < 0x80 && c != '\r') = true)
    (hyaml : Yaml.read text = .ok (.object entries)) : HoldsMapping files p entries := by
  have hchars : ∀ c ∈ text.toList, c.toNat < 0x80 ∧ c ≠ '\r' := by
    simpa [List.all_eq_true] using htext
  refine ⟨_, text, hread, Utf8.decode_encode_of_ascii fun c hc => (hchars c hc).1, ?_⟩
  rwa [Text.lineFeeds_of_not_mem fun hmem => (hchars _ hmem).2 rfl, String.ofList_toList]

theorem HoldsMapping.distinctKeys {files : FileTree} {p : String}
    (h : HoldsMapping files p entries) : Value.DistinctKeys entries := by
  obtain ⟨_, _, -, -, hyaml⟩ := h
  exact Yaml.distinctKeys_of_read hyaml

theorem load_eq_ok_iff {path : Option String} {p : String} (hpath : chooseFile? w path = some p)
    (hfile : HoldsMapping w.files p entries) {s : Settings} :
    (load w path).1 = .ok s ↔ ∀ k, ¬Misread w entries k ∧
      effective? w entries k = some (s.get k) ∧ isUsable k (s.get k) = true := by
  rw [load_eq_finish hpath hfile, finish_eq_ok_iff]
  simp only [get_setEntries p hfile.distinctKeys, usable_afterVariable_iff]

end Settings

open Settings in
/-- Loading a file that holds a mapping succeeds exactly if no variable is misread and every setting
has an effective value that can be used. What it gives are the effective values. -/
theorem load_succeeds_iff {w : World} {path : Option String} {p : String}
    {entries : List (Value × Value)} (hpath : chooseFile? w path = some p)
    (hfile : HoldsMapping w.files p entries) :
    ((∃ s, (load w path).1 = .ok s) ↔ (∀ k, ¬Misread w entries k) ∧
      ∀ k, ∃ v, effective? w entries k = some v ∧ isUsable k v = true) ∧
    ∀ s, (load w path).1 = .ok s → ∀ k, effective? w entries k = some (s.get k) := by
  refine ⟨⟨?_, ?_⟩, fun s hs k => ((load_eq_ok_iff hpath hfile).1 hs k).2.1⟩
  · rintro ⟨s, hs⟩
    have hvalues := (load_eq_ok_iff hpath hfile).1 hs
    exact ⟨fun k => (hvalues k).1, fun k => ⟨s.get k, (hvalues k).2⟩⟩
  · rintro ⟨hread, hvalues⟩
    choose value hvalue husable using hvalues
    refine ⟨ofValues value, (load_eq_ok_iff hpath hfile).2 fun k => ?_⟩
    rw [get_ofValues]
    exact ⟨hread k, hvalue k, husable k⟩

/-- A world with one settings file. -/
def World.ofFile (text : String) (environment : List (String × String)) : World :=
  { files := { nodes := [(["c.yml"], .file (Utf8.encode text))] }, environment }

theorem Settings.holdsMapping_ofFile {text : String} {entries : List (Value × Value)}
    (environment : List (String × String))
    (htext : (text.toList.all fun c => c.toNat < 0x80 && c != '\r') = true)
    (hyaml : Yaml.read text = .ok (.object entries)) :
    HoldsMapping (World.ofFile text environment).files "c.yml" entries :=
  holdsMapping_of_text rfl htext hyaml

/-- A prefix, a key that is no setting, and a switch. -/
def switchLines : List Yaml.Line :=
  [⟨"record_prefix", .text "Rec" (by decide), ⟨by decide, by decide⟩, by decide, by decide⟩,
    ⟨"size", .text "big" (by decide), ⟨by decide, by decide⟩, by decide, by decide⟩,
    ⟨"optional_fields", .bool true, ⟨by decide, by decide⟩, by decide, by decide⟩]

open Settings in
/-- The switch is turned off again in the environment. -/
theorem load_succeeds_iff_switched_off :
    ∃ entries s, HoldsMapping
        (World.ofFile "record_prefix: Rec\nsize: big\noptional_fields: true\n" []).files "c.yml"
        entries ∧
      (load (World.ofFile "record_prefix: Rec\nsize: big\noptional_fields: true\n"
        [("STRUCT_INFER_OPTIONAL_FIELDS", " Off ")]) (some "c.yml")).1 = .ok s ∧
      s.get .recordPrefix = .text "Rec" ∧ s.get .optionalFields = .bool false := by
  have hyaml : Yaml.read "record_prefix: Rec\nsize: big\noptional_fields: true\n" =
      .ok (.object (switchLines.map Yaml.Line.entry)) := by
    have htext : "record_prefix: Rec\nsize: big\noptional_fields: true\n" =
        String.ofList (Yaml.Line.text switchLines) := by decide
    rw [htext]
    exact Yaml.Line.read_text (by simp [switchLines]) (by decide)
  have hfile := fun environment => holdsMapping_ofFile environment (by decide) hyaml
  have hpath : ∀ w, chooseFile? w (some "c.yml") = some "c.yml" := fun _ => rfl
  obtain ⟨hsucceeds, hvalue⟩ := load_succeeds_iff (hpath _)
    (hfile [("STRUCT_INFER_OPTIONAL_FIELDS", " Off ")])
  obtain ⟨s, hs⟩ : ∃ s, (load (World.ofFile _ _) (some "c.yml")).1 = .ok s := by
    refine hsucceeds.2 ⟨fun k => ?_, fun k => ?_⟩
    · rintro ⟨hset, v, hv, hkind⟩
      cases k with
      | optionalFields =>
        obtain rfl : Value.bool true = v := Option.some.inj hv
        exact hkind rfl
      | _ => cases hset
    · cases k <;> exact ⟨_, rfl, rfl⟩
  exact ⟨_, s, hfile [], hs, (Option.some.inj (hvalue s hs .recordPrefix)).symm,
    (Option.some.inj (hvalue s hs .optionalFields)).symm⟩

/-- A boolean as level. -/
def levelLines : List Yaml.Line :=
  [⟨"log_level", .bool true, ⟨by decide, by decide⟩, by decide, by decide⟩]

open Settings in
/-- The level in the environment is one, but the file has a boolean in its place, so loading
fails. -/
theorem load_fails_of_misread :
    ∃ entries, HoldsMapping (World.ofFile "log_level: true\n" []).files "c.yml" entries ∧
      (∀ k, ∃ v, effective? (World.ofFile "log_level: true\n" [("STRUCT_INFER_LOG_LEVEL", "info")])
        entries k = some v ∧ isUsable k v = true) ∧
      ∀ s, (load (World.ofFile "log_level: true\n" [("STRUCT_INFER_LOG_LEVEL", "info")])
        (some "c.yml")).1 ≠ .ok s := by
  have hyaml : Yaml.read "log_level: true\n" =
      .ok (.object (levelLines.map Yaml.Line.entry)) := by
    have htext : "log_level: true\n" = String.ofList (Yaml.Line.text levelLines) := by decide
    rw [htext]
    exact Yaml.Line.read_text (by simp [levelLines]) (by decide)
  have hfile := fun environment => holdsMapping_ofFile environment (by decide) hyaml
  have hpath : ∀ w, chooseFile? w (some "c.yml") = some "c.yml" := fun _ => rfl
  refine ⟨_, hfile [], fun k => ?_, fun s hs => ?_⟩
  · cases k <;> exact ⟨_, rfl, rfl⟩
  · have hlevel := (load_eq_ok_iff (hpath _) (hfile _)).1 hs .logLevel
    exact hlevel.1 ⟨rfl, .bool true, rfl, by decide⟩

end JsonShape
