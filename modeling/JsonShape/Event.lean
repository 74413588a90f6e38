import JsonShape.Log.Level
import JsonShape.Shape.Basic
import JsonShape.Value.Written

/-!
# Events

What a run reports while it works. `Event.entry` gives the log entry of an event : its level, the
part of the program that reports it, and the sentence.
-/

namespace JsonShape

/-- Something worth a line in the log. -/
inductive Event where
  | decoded (documents : Nat) (source : String)
  | unsupportedValue (typeName : String)
  | keyNotText (key : Value)
  | keysCollide (first second name : String)
  | elementWidened (index count : Nat)
  | noCommonShape (left right : Shape)
  | interned (handle : Nat) (names : List String)
  | reached (declared total : Nat)
  | inferred (root : Shape) (declared total : Nat)
  | rendered (declared : Nat) (format : String)
  | wrote (format path : String)
  | unknownSetting (key : Value) (path : String)
  | settingsLoaded (path : String)
  | finished (task : String)
  | failed (task message : String)

namespace Event

/-- How long a task took; the wall time itself is not kept. -/
def duration : String := "<t>s"

/-- The log entry of an event. -/
def entry : Event → Log.Entry
  | .decoded documents source =>
    ⟨Log.Level.info, "struct_infer.decoder",
      "Decoded " ++ toString documents ++ " JSON document(s) from " ++ source⟩
  | .unsupportedValue typeName =>
    ⟨Log.Level.debug, "struct_infer.infer",
      "Unsupported value of type " ++ typeName ++ "; using any"⟩
  | .keyNotText key =>
    ⟨Log.Level.debug, "struct_infer.infer",
      "Non-string key " ++ key.quoted ++ "; object degraded to any"⟩
  | .keysCollide first second name =>
    ⟨Log.Level.info, "struct_infer.infer",
      "Keys " ++ Text.quote first ++ " and " ++ Text.quote second ++ " both convert to " ++
        Text.quote name ++ "; object degraded to any"⟩
  | .elementWidened index count =>
    ⟨Log.Level.debug, "struct_infer.infer",
      "Array element " ++ toString index ++ " of " ++ toString count ++ " widened to any"⟩
  | .noCommonShape left right =>
    ⟨Log.Level.debug, "struct_infer.unify",
      "No common type for " ++ left.text ++ " and " ++ right.text ++ "; using any"⟩
  | .interned handle names =>
    ⟨Log.Level.debug, "struct_infer.interner",
      "Interned record #" ++ toString handle ++ " with fields " ++
        (Value.list (names.map Value.text)).quoted⟩
  | .reached declared total =>
    ⟨Log.Level.debug, "struct_infer.interner",
      toString declared ++ " of " ++ toString total ++
        " interned records reachable from root"⟩
  | .inferred root declared total =>
    ⟨Log.Level.info, "struct_infer.infer",
      "Inferred " ++ root.text ++ " with " ++ toString declared ++ " declared records (" ++
        toString total ++ " interned)"⟩
  | .rendered declared format =>
    ⟨Log.Level.debug, "struct_infer.generator",
      "Rendered " ++ toString declared ++ " declaration(s) as " ++ format⟩
  | .wrote format path =>
    ⟨Log.Level.info, "struct_infer.cli.generate",
      "Wrote " ++ format ++ " declarations to " ++ path⟩
  | .unknownSetting key path =>
    ⟨Log.Level.warning, "struct_infer.cli_config",
      "Ignoring unknown config key " ++ key.quoted ++ " in " ++ path⟩
  | .settingsLoaded path =>
    ⟨Log.Level.debug, "struct_infer.cli_config", "Loaded settings from " ++ path⟩
  | .finished task =>
    ⟨Log.Level.debug, "struct_infer.cli.generate", task ++ " finished in " ++ duration⟩
  | .failed task message =>
    ⟨Log.Level.debug, "struct_infer.cli.generate",
      task ++ " failed after " ++ duration ++ ": " ++ message⟩

end Event

end JsonShape
