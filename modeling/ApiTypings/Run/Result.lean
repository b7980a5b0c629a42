import ApiTypings.Json.Basic

/-!
The result of a run.

A result tells whether a run succeeded and, in a summary, what came out of it. It repeats the format
and the input path of the settings as they were given, whatever they are.
-/

namespace ApiTypings

/-- The result of a run. The output path of a text that was not stored is empty. -/
structure RunResult where
  ok : Bool
  error : String
  format : Json
  inputPath : Json
  outputPath : String
  text : String
  summary : Fields
  deriving Inhabited

namespace RunResult

/-- The number of lines of a text; what follows the last line feed is a line unless it is empty. -/
def lineCount (cs : List Char) : Nat :=
  cs.count '\n' + (if cs.getLast?.any (· ≠ '\n') then 1 else 0)

/-- A value of the settings, an absent one reading as the empty text. -/
def setting (settings : Fields) (key : String) : Json := (settings.get? key).getD (.str "")

/-- The fields of one object, and then those of another one. -/
def extend (fields extra : Fields) : Fields :=
  extra.foldl (fun fields e => fields.set e.1 e.2) fields

/-- The result of a run that failed. -/
def failure (message : String) (settings extra : Fields) : RunResult where
  ok := false
  error := message
  format := setting settings "format"
  inputPath := setting settings "input_path"
  outputPath := ""
  text := ""
  summary := extend [("format", setting settings "format")] extra

/-- The result of a run that generated a text. -/
def success (settings : Fields) (text outputPath : String) (extra : Fields) : RunResult where
  ok := true
  error := ""
  format := setting settings "format"
  inputPath := setting settings "input_path"
  outputPath := outputPath
  text := text
  summary := extend [("format", setting settings "format"), ("lines", .int (lineCount text.toList)),
    ("bytes", .int text.utf8ByteSize)] extra

/-- The report of a result: all of it but the text. -/
def report (r : RunResult) : Fields :=
  [("ok", .bool r.ok), ("error", .str r.error), ("format", r.format), ("input_path", r.inputPath),
    ("output_path", .str r.outputPath), ("summary", .obj r.summary)]

end RunResult

end ApiTypings
