import GzipStage.Json.Printer

namespace GzipStage

open Json

/-- A summary, a description, and the form of the options and inputs. -/
def schema : Value :=
  .object
    [("description", .array
        [.string "Compresses the single file passed as the `file` input with gzip",
          .string "at the default level and writes it to `filename` in the tree.",
          .string "The gzip header carries no file name or timestamp."]),
      ("schema_2", .object [("inputs", inputs), ("options", options)]),
      ("summary", .string "Compress a file with gzip")]
where
  /-- The one input is a file. -/
  inputs : Value :=
    .object
      [("additionalProperties", .bool false),
        ("properties", .object
          [("file", .object
            [("additionalProperties", .bool true), ("type", .string "object")])]),
        ("required", .array [.string "file"]),
        ("type", .string "object")]
  /-- The one option is the name of the artifact. -/
  options : Value :=
    .object
      [("additionalProperties", .bool false),
        ("properties", .object
          [("filename", .object
            [("description", .string "Filename for the compressed artifact"),
              ("type", .string "string")])]),
        ("required", .array [.string "filename"])]

end GzipStage
