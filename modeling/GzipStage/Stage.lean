import GzipStage.Arguments.Resolve
import GzipStage.FileSystem.Operations
import GzipStage.Log.Record
import GzipStage.Transfer.Compress

/-! The stage reads its arguments document, works out the source and the target, and compresses
the one into the other. -/
namespace GzipStage

open Log Transfer

def defaultArgumentsPath : Path := .ofString "/run/osbuild/api/arguments"

structure Plan where
  source : Path
  target : Path
  deriving DecidableEq

def loadedRecord (path : Path) (a : Arguments) : Record where
  level := .debug
  target := "staticgzip::arguments"
  text :=
    "loaded arguments from " ++ path.display ++ ": tree=" ++ Quoted.quote a.tree ++
      " filename=" ++ Quoted.quote a.filename

def plannedRecord (plan : Plan) : Record where
  level := .debug
  target := "staticgzip::stage"
  text := "source=" ++ plan.source.display ++ " target=" ++ plan.target.display

def compressedRecord (count : Nat) (plan : Plan) : Record where
  level := .debug
  target := "staticgzip::compress"
  text :=
    "compressed " ++ IoError.decimal count ++ " bytes from " ++ plan.source.display ++ " into " ++
      plan.target.display

def decodeArguments (path : Path) (document : Except IoError Bytes) :
    Except StageError Arguments × List Record :=
  match document with
  | .error e => (.error (.io .readingArguments path e), [])
  | .ok document =>
    match Arguments.decode document with
    | .error e => (.error (.decode e), [])
    | .ok a => (.ok a, [loadedRecord path a])

def loadArguments (fs : FileSystem) (path : Path) :
    Except StageError Arguments × List Record :=
  decodeArguments path (fs.read path)

/-- What is not settled by the files: how contents are compressed, in what pieces and with what
faults the contents of a node are read, how a node takes octets, and what is said below the first
line of a usage error. -/
structure Platform where
  encoder : Encoder := Gzip.encoder
  reads : Inode → Bytes → List ReadEvent := fun _ octets => readerOf octets
  writes : Inode → Writer := fun _ => .generous
  usage : List Bytes → String := fun _ => ""

/-- The writer for a node: a full device refuses everything. -/
def writerFor (fs : FileSystem) (i : Inode) (P : Platform := {}) : Writer :=
  if fs.nodes[i]? = some (.device .full) then .broken (.refuse .noSpace)
  else { P.writes i with accepted := #[] }

def readerFor (fs : FileSystem) (i : Inode) (P : Platform := {}) : List ReadEvent :=
  match fs.contents i with
  | .ok octets => P.reads i octets
  | .error e => [.fault e]

/-- Compresses what a reader gives, and blames an error on the source if a call of the reader has
failed for good, else on the target. -/
def streamBetween (reader : List ReadEvent) (source : Path) (writer : Writer) (target : Path)
    (E : Encoder := Gzip.encoder) : Except StageError Nat × Writer :=
  let out := compress reader writer E
  let failed := out.reads.any ReadEvent.fails
  (out.result.mapError fun (_, e) =>
      if failed then .io .readingSource source e else .io .writingTarget target e,
    out.writer)

/-- The answer for a file that has been compressed, and the record of a success. -/
def conclude (plan : Plan) : Except StageError Nat → Except StageError Unit × List Record
  | .ok count => (.ok (), [compressedRecord count plan])
  | .error e => (.error e, [])

/-- How files are reached: a whole one is read, a source is opened, a target is made or emptied, and
what the one gives is compressed into the other. -/
structure Files (m : Type → Type) where
  Source : Type
  Target : Type
  read : Path → m (Except IoError Bytes)
  openSource : Path → m (Except IoError Source)
  createTarget : Path → m (Except IoError Target)
  stream : Plan → Source → Target → m (Except StageError Nat)

/-- Compresses one file into another.  The source is opened before the target is made or emptied,
and read after that. -/
def Files.compress {m : Type → Type} [Monad m] (files : Files m) (plan : Plan) :
    m (Except StageError Unit × List Record) := do
  match ← files.openSource plan.source with
  | .error e => return (.error (.io .openingSource plan.source e), [])
  | .ok source =>
    match ← files.createTarget plan.target with
    | .error e => return (.error (.io .creatingTarget plan.target e), [])
    | .ok target => return conclude plan (← files.stream plan source target)

def Platform.files (P : Platform) : Files (StateM FileSystem) where
  Source := Inode
  Target := Inode
  read path := fun fs => (fs.read path, fs)
  openSource path := fun fs => (fs.locate path, fs)
  createTarget path := fun fs =>
    match fs.create path with
    | .error e => (.error e, fs)
    | .ok (fs, target) => (.ok target, fs)
  stream plan source target := fun fs =>
    let (result, writer) := streamBetween (readerFor fs source P) plan.source
      (writerFor fs target P) plan.target P.encoder
    (result, fs.store target writer.accepted.toList)

def compressFile (fs : FileSystem) (plan : Plan) (P : Platform := {}) :
    Except StageError Unit × FileSystem × List Record :=
  let ((answer, log), fs) := (P.files.compress plan).run fs
  (answer, fs, log)

structure Stage where
  argumentsPath : Path := defaultArgumentsPath

namespace Stage

/-- The source and the target that the document names. -/
def paths (a : Arguments) : Except StageError Plan := do
  let source ← a.resolveSource
  let target ← a.resolveTarget
  return ⟨source, target⟩

/-- Works out the source and the target from what reading the document has given. -/
def planFor (stage : Stage) (document : Except IoError Bytes) :
    Except StageError Plan × List Record :=
  match decodeArguments stage.argumentsPath document with
  | (.error e, log) => (.error e, log)
  | (.ok a, log) =>
    match paths a with
    | .error e => (.error e, log)
    | .ok plan => (.ok plan, log ++ [plannedRecord plan])

/-- Works out the source and the target; only the document is read. -/
def plan (stage : Stage) (fs : FileSystem) : Except StageError Plan × List Record :=
  stage.planFor (fs.read stage.argumentsPath)

end Stage

/-- Reads the document, works out the source and the target, and compresses the one into the
other. -/
def Files.run {m : Type → Type} [Monad m] (files : Files m) (stage : Stage) :
    m (Except StageError Plan × List Record) := do
  match stage.planFor (← files.read stage.argumentsPath) with
  | (.error e, log) => return (.error e, log)
  | (.ok plan, log) =>
    let (answer, more) ← files.compress plan
    return (answer.map fun _ => plan, log ++ more)

def Stage.run (stage : Stage) (fs : FileSystem) (P : Platform := {}) :
    Except StageError Plan × FileSystem × List Record :=
  let ((answer, log), fs) := (P.files.run stage).run fs
  (answer, fs, log)

end GzipStage
