import GzipStage.Json.Record

/-! The arguments of a stage, and the document they come in. -/
namespace GzipStage

structure FileInput where
  /-- The directory that holds the staged content. -/
  path : String := ""
  /-- The content ids with what is said about each of them, which is never looked at. -/
  files : Json.Members := []

structure Arguments where
  /-- The root of the output tree. -/
  tree : String := ""
  input : FileInput := {}
  /-- The name of the artifact in the tree. -/
  filename : String := ""

namespace Arguments

open Json

def dataReader : Reader Members :=
  record "FileData" [.of "files" map fun _ files => files] []

def fileReader : Reader FileInput :=
  record "FileInput"
    [.of "path" string fun input path => { input with path },
      .of "data" dataReader fun input files => { input with files }] {}

def inputsReader : Reader FileInput :=
  record "Inputs" [.of "file" fileReader fun _ input => input] {}

def optionsReader : Reader String :=
  record "Options" [.of "filename" string fun _ filename => filename] ""

def reader : Reader Arguments :=
  record "StageArguments"
    [.of "tree" string fun a tree => { a with tree },
      .of "inputs" inputsReader fun a input => { a with input },
      .of "options" optionsReader fun a filename => { a with filename }] {}

def decode (document : Bytes) : Except Json.Error Arguments := Json.document reader document

/-- Equality of arguments; what is said about the files is compared as JSON. -/
def same (a b : Arguments) : Bool :=
  a.tree = b.tree && a.input.path = b.input.path && sameMembers a.input.files b.input.files &&
    a.filename = b.filename

end Arguments

end GzipStage
