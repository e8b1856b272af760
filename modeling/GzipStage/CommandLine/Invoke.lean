import GzipStage.CommandLine.Parse
import GzipStage.Log.Filter
import GzipStage.Schema
import GzipStage.Stage

namespace GzipStage.CommandLine

open Log

structure Outcome where
  exit : Nat
  stdout : String
  stderr : String
  fileSystem : FileSystem

def helpText : String :=
  "Compress the file input of an osbuild pipeline into the tree with gzip\n\n" ++
    "Usage: staticgzip [OPTIONS]\n\n" ++
    "Options:\n" ++
    "      --schema   Print the stage schema as JSON and exit\n" ++
    "  -h, --help     Print help\n" ++
    "  -V, --version  Print version\n"

def versionText : String := "staticgzip 0.1.0\n"

def warnings (complaints : List String) : String :=
  String.join (complaints.map fun c => "warning: " ++ c ++ ", ignoring it\n")

def shown (filter : Filter) (log : List Record) : String :=
  String.join ((log.filter filter.shows).map Record.line)

def wroteRecord (plan : Plan) : Record where
  level := .info
  target := "staticgzip"
  text := "wrote " ++ plan.target.display

structure Reply where
  exit : Nat
  stdout : String
  stderr : String

/-- The stage that words ask to be run, or the answer if they ask for something else.  Of what is
printed for a usage error only the first line is settled here; the tips, the usage and the pointer
to `--help` below it are the platform's. -/
def stageOf (words : List Bytes) (P : Platform := {}) : Except Reply Stage :=
  match parse words with
  | .error e => .error ⟨2, "", e.message ++ "\n" ++ P.usage words⟩
  | .ok .help => .error ⟨0, helpText, ""⟩
  | .ok .version => .error ⟨0, versionText, ""⟩
  | .ok .schema => .error ⟨0, schema.pretty ++ "\n", ""⟩
  | .ok (.run arguments) => .ok ⟨arguments.getD defaultArgumentsPath⟩

/-- What a run logs: the records of the stage, and one more after success. -/
def runLog (result : Except StageError Plan) (log : List Record) : List Record :=
  match result with
  | .ok plan => log ++ [wroteRecord plan]
  | .error _ => log

def exitCode (result : Except StageError Plan) : Nat := if result.isOk then 0 else 1

/-- What a run writes to standard error: the records that the filter shows, and the error. -/
def report (filter : Filter) (result : Except StageError Plan) (log : List Record) : String :=
  shown filter (runLog result log) ++
    match result with
    | .ok _ => ""
    | .error e => e.chain ++ "\n"

/-- Calls the program with words and the text of a log filter. -/
def call {m : Type → Type} [Monad m] (files : Files m) (words : List Bytes)
    (logSpec : Option String) (P : Platform := {}) : m Reply := do
  let (filter, complaints) := Filter.parse (logSpec.getD defaultSpec)
  match stageOf words P with
  | .error reply => return { reply with stderr := warnings complaints ++ reply.stderr }
  | .ok stage =>
    let (result, log) ← files.run stage
    return ⟨exitCode result, "", warnings complaints ++ report filter result log⟩

def invoke (words : List Bytes) (logSpec : Option String) (fs : FileSystem)
    (P : Platform := {}) : Outcome :=
  let (reply, fs) := (call P.files words logSpec P).run fs
  ⟨reply.exit, reply.stdout, reply.stderr, fs⟩

end GzipStage.CommandLine
