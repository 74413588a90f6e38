import JsonShape.Event
import JsonShape.Settings.Basic
import JsonShape.Text.CharClass
import JsonShape.World.Basic
import JsonShape.Yaml.Printer
import JsonShape.Yaml.Reader

/-!
# Settings files

`Settings.load` takes the settings of a file, changes them by environment variables and checks
the result. Without a path the file is the first of the usual places that is there; without a
file the settings start from their usual values. `Settings.save` writes a file that loads back.
-/

namespace JsonShape

/-- Why settings cannot be loaded. -/
inductive SettingsFault where
  | report (r : Report)
  | file (failure : OsFailure)
  /-- The file is no UTF-8. -/
  | encoding (fault : Utf8.Fault)
  /-- A scalar of the file does not fit its tag. -/
  | scalar (fault : Yaml.Fault)
deriving Inhabited

/-- The report of a fault, where it has one. -/
def SettingsFault.report? : SettingsFault → Option Report
  | .report r => some r
  | _ => none

namespace Settings

/-- The places where a settings file is looked for. -/
def usualPlaces : List String :=
  ["struct-infer.yml", "struct-infer.yaml", ".struct-infer.yml", ".struct-infer.yaml",
    "~/.struct-infer.yml", "~/.struct-infer.yaml", "~/.config/struct-infer/config.yml",
    "~/.config/struct-infer/config.yaml"]

/-- The settings file at the usual places. -/
def findFile? (w : World) : Option String :=
  (usualPlaces.map fun p => PathText.plain (w.expand p)).find? w.files.isPresent

/-- The settings file of a run : the path that is given, or the one found. -/
def chooseFile? (w : World) (path : Option String) : Option String :=
  match path with
  | none | some "" => findFile? w
  | some p => some p

/-- The settings with the entries of a file set, and an event for each key that is no setting. -/
def setEntries (path : String) : List (Value × Value) → Settings → Settings × List Event
  | [], s => (s, [])
  | (k, v) :: rest, s =>
    match k with
    | .text name =>
      match Setting.ofKey? name with
      | some setting => setEntries path rest (s.set setting v)
      | none => unknown k rest s
    | _ => unknown k rest s
where
  /-- The other entries, after one whose key is no setting. -/
  unknown (k : Value) (rest : List (Value × Value)) (s : Settings) : Settings × List Event :=
    let r := setEntries path rest s
    (r.1, .unknownSetting k path :: r.2)

/-- The entries in the content of a file; an empty document has none. -/
def readEntries (path : String) (content : List UInt8) :
    Except SettingsFault (List (Value × Value)) :=
  match Utf8.decode content with
  | .error fault => .error (.encoding fault)
  | .ok text =>
    match Yaml.read (String.ofList (Text.lineFeeds text.toList)) with
    | .error .malformed =>
      .error (.report (.configuration ("Invalid YAML in " ++ path) (.text "config") .null))
    | .error fault => .error (.scalar fault)
    | .ok (.object entries) => .ok entries
    | .ok v =>
      if Report.isFalsy v then .ok []
      else
        .error (.report (.configuration ("Config file " ++ path ++ " must contain a mapping")
          (.text "config") .null))

/-- The settings of a file. -/
def loadFile (w : World) (path : String) : Except SettingsFault Settings × List Event :=
  if !w.files.isPresent (PathText.plain path) then
    (.error (.report (.configuration "Config file not found" (.text "config") (.text path))), [])
  else
    match w.files.read path with
    | .error failure => (.error (.file failure), [])
    | .ok content =>
      match readEntries path content with
      | .error fault => (.error fault, [])
      | .ok entries =>
        let r := setEntries path entries {}
        (.ok r.1, r.2 ++ [.settingsLoaded path])

/-- The settings after the environment, checked. -/
def finish (w : World) (s : Settings) : Except SettingsFault Settings :=
  match applyVariables w.environmentValue? Setting.checked s with
  | .error r => .error (.report r)
  | .ok s => s.validated.mapError .report

/-- The settings of a run, with what there is to report. -/
def load (w : World) (path : Option String) : Except SettingsFault Settings × List Event :=
  match chooseFile? w path with
  | none => (finish w {}, [])
  | some p =>
    match loadFile w p with
    | (.error fault, events) => (.error fault, events)
    | (.ok s, events) => (finish w s, events)

/-- The settings as the text of a file. -/
def fileText (s : Settings) : String :=
  Yaml.print (s.entries.map fun e => (.text e.1, e.2))

/-- The files with the settings saved at a path. -/
def save (s : Settings) (files : FileTree) (path : String) :
    Except FileTree.Unfinished FileTree :=
  files.writeWithParents path (Utf8.encode s.fileText)

end Settings

end JsonShape
