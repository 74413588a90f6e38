import JsonShape.Report

/-!
# Faults of rendering

Why declarations cannot be written in an output format. `RenderFault.report?` words those that
the user can do something about. The other two come only from tables put together by hand : a
record without fields, and a handle that no declaration covers.
-/

namespace JsonShape

/-- Why declarations cannot be written. -/
inductive RenderFault where
  | unsupportedFormat (format : String)
  | invalidGoName (name : String)
  | unexportedGoName (name : String)
  | untaggableKey (key : String)
  | invalidPythonName (name : String)
  | shadowedModelName (name : String)
  | invalidSchema (violation : String)
  | emptyRecord
  | undeclared (handle : Int)
deriving DecidableEq, Repr, Inhabited

/-- The report of a fault. -/
def RenderFault.report? : RenderFault → Option Report
  | .unsupportedFormat format =>
    some (.render ("Unsupported output format: " ++ format) (.text format) .null)
  | .invalidGoName name =>
    some (.render "Field name is not a valid Go identifier" (.text "go") (.text name))
  | .unexportedGoName name =>
    some (.render "Field name is not exported, encoding/json would ignore it" (.text "go")
      (.text name))
  | .untaggableKey key =>
    some (.render "JSON key cannot be expressed as an encoding/json tag" (.text "go") (.text key))
  | .invalidPythonName name =>
    some (.render "Field name is not a valid Python identifier" (.text "pydantic") (.text name))
  | .shadowedModelName name =>
    some (.render "Field name shadows a generated model name" (.text "pydantic") (.text name))
  | .invalidSchema violation =>
    some (.render ("Generated json_schema failed validation: " ++ violation)
      (.text "json_schema") .null)
  | .emptyRecord => none
  | .undeclared _ => none

end JsonShape
