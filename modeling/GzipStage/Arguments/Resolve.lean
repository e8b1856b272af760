import GzipStage.Arguments.Basic
import GzipStage.Json.Serialize
import GzipStage.StageError

namespace GzipStage.Arguments

def nonEmpty (text field : String) : Except StageError String :=
  if text.isEmpty then .error (.missingField field) else .ok text

def dropSlashes (name : String) : String := String.ofList (name.toList.dropWhile (· == '/'))

def joinUnder (base name field : String) : Except StageError Path := do
  let relative ← nonEmpty (dropSlashes name) field
  return (Path.ofString base).join (Path.ofString relative)

/-- The staged file.  There has to be exactly one; if not, all of them are listed. -/
def resolveSource (a : Arguments) : Except StageError Path :=
  let files := a.input.files
  if files.length ≠ 1 then
    match files.serialize with
    | .error e => .error (.decode e)
    | .ok listing => .error (.resolution listing)
  else
    match files.names.head? with
    | none => .error (.resolution "\x7b\x7d")
    | some id => do
      let directory ← nonEmpty a.input.path "inputs.file.path"
      joinUnder directory id "inputs.file.data.files"

def resolveTarget (a : Arguments) : Except StageError Path := do
  let tree ← nonEmpty a.tree "tree"
  joinUnder tree a.filename "options.filename"

end GzipStage.Arguments
