import GzipStage.IoError
import GzipStage.Json.Error
import GzipStage.Path

/-! Why a stage fails, as its operator is told. -/
namespace GzipStage

inductive Operation where
  | readingArguments
  | openingSource
  | readingSource
  | creatingTarget
  | writingTarget
  | other (label : String)
  deriving DecidableEq

namespace Operation

def label : Operation → String
  | .readingArguments => "reading arguments"
  | .openingSource => "opening source"
  | .readingSource => "reading source"
  | .creatingTarget => "creating target"
  | .writingTarget => "writing target"
  | .other label => label

def ofLabel (label : String) : Operation :=
  ([.readingArguments, .openingSource, .readingSource, .creatingTarget, .writingTarget].find?
    (·.label = label)).getD (.other label)

end Operation

def hint : Operation → IoErrorKind → String
  | .readingArguments, .notFound =>
    "The orchestrator did not stage an arguments document at this path."
  | .readingArguments, _ => "The arguments document must be a readable regular file."
  | .openingSource, .notFound | .readingSource, .notFound =>
    "The content id in inputs.file.data.files has no file in the staging directory."
  | .openingSource, _ | .readingSource, _ => "The staged input could not be read."
  | .creatingTarget, .notFound =>
    "The tree directory for options.filename does not exist; the stage does not create it."
  | _, .storageFull | _, .writeZero => "The output tree ran out of space."
  | _, .permissionDenied => "The stage lacks write access to the output tree."
  | _, _ => "Re-run the stage once the tree is writable."

def ioMessage (operation : Operation) (path : Path) (cause : IoError) : String :=
  "Error " ++ operation.label ++ " '" ++ path.display ++ "': " ++ cause.text ++ ". " ++
    hint operation cause.kind

inductive StageError where
  /-- A file could not be opened, created, read or written. -/
  | io (operation : Operation) (path : Path) (cause : IoError)
  /-- The arguments document is refused. -/
  | decode (error : Json.Error)
  /-- A field that is needed for a path is empty. -/
  | missingField (field : String)
  /-- The arguments do not name exactly one file; the text lists those they name. -/
  | resolution (listing : String)

namespace StageError

def message : StageError → String
  | .io operation path cause => ioMessage operation path cause
  | .decode error => "malformed stage arguments: " ++ error.message
  | .missingField field => "stage arguments are missing `" ++ field ++ "`"
  | .resolution listing => "unexpected amount of destination files " ++ listing

def causes : StageError → List String
  | .io _ _ cause => cause.text :: cause.causes
  | .decode error => [error.message]
  | .missingField _ => []
  | .resolution _ => []

end StageError

def renderChain (text : String) (causes : List String) : String :=
  causes.foldl (fun out cause => out ++ "\n  caused by: " ++ cause) text

def StageError.chain (e : StageError) : String := renderChain e.message e.causes

end GzipStage
