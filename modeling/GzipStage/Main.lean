import GzipStage.CommandLine.Invoke

/-! The program. -/
namespace GzipStage.Main

open CommandLine Transfer

def failure : IO.Error → IoError
  | .alreadyExists _ n _ | .otherError n _ | .resourceBusy n _ | .resourceVanished n _
  | .unsupportedOperation n _ | .hardwareFault n _ | .unsatisfiedConstraints n _
  | .illegalOperation n _ | .protocolError n _ | .timeExpired n _ | .interrupted _ n _
  | .noFileOrDirectory _ n _ | .invalidArgument _ n _ | .permissionDenied _ n _
  | .resourceExhausted _ n _ | .inappropriateType _ n _ | .noSuchThing _ n _ =>
    .system n.toNat
  | .unexpectedEof => .plain .unexpectedEof
  | .userError text => .custom .other text []

def attempt {α : Type} (action : IO α) : IO (Except IoError α) := do
  try return .ok (← action) catch e => return .error (failure e)

def openFile (path : Path) (mode : IO.FS.Mode) : IO (Except IoError IO.FS.Handle) :=
  if path.bytes.contains Octet.nul then return .error .nulInPath
  else
    match Utf8.decode? path.bytes with
    | some name => attempt (IO.FS.Handle.mk name mode)
    | none => return .error (.custom .invalidFilename "the path is not text" [])

/-- What the calls of a reader for a file give, latest first, up to its end or to a failure. -/
partial def eventsOnto (file : IO.FS.Handle) (acc : List ReadEvent) : IO (List ReadEvent) := do
  match ← attempt (file.read bufferSize.toUSize) with
  | .error e => if e.isInterrupted then eventsOnto file acc else return .fault e :: acc
  | .ok octets =>
    if octets.isEmpty then return acc else eventsOnto file (.chunk octets.toList :: acc)

def readerFor (file : IO.FS.Handle) : IO (List ReadEvent) := List.reverse <$> eventsOnto file []

def contentsOf : List ReadEvent → Except IoError Bytes
  | [] => .ok []
  | .chunk octets :: events => (octets ++ ·) <$> contentsOf events
  | .fault e :: _ => .error e

def readFile (path : Path) : IO (Except IoError Bytes) := do
  match ← openFile path .read with
  | .error e => return .error e
  | .ok file => return contentsOf (← readerFor file)

def writeAll (file : IO.FS.Handle) (octets : Bytes) : IO (Except IoError Unit) :=
  attempt do
    file.write ⟨octets.toArray⟩
    file.flush

/-- The files of the machine.  What is to be written is known before any of it is; when it cannot be
written, the answer is that for a target which refuses it. -/
def files : Files IO where
  Source := IO.FS.Handle
  Target := IO.FS.Handle
  read := readFile
  openSource path := openFile path .read
  createTarget path := openFile path .write
  stream plan source target := do
    let reader ← readerFor source
    let (result, writer) := streamBetween reader plan.source .generous plan.target
    match ← writeAll target writer.accepted.toList with
    | .ok () => return result
    | .error e => return (streamBetween reader plan.source (.broken (.refuse e)) plan.target).1

end GzipStage.Main

open GzipStage GzipStage.CommandLine in
def main (words : List String) : IO UInt32 := do
  let reply ← call Main.files (words.map Utf8.encode) (← IO.getEnv "RUST_LOG")
  IO.print reply.stdout
  IO.eprint reply.stderr
  return reply.exit.toUInt32
