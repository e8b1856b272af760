import GzipStage.Gzip.Encoder

/-! Compressing a stream: everything that a reader gives goes into one member. -/
namespace GzipStage.Transfer

inductive Side where
  | reader
  | writer
  deriving DecidableEq

structure Outcome where
  /-- The number of octets read, or the end that failed and its error. -/
  result : Except (Side × IoError) Nat
  writer : Writer
  /-- What the calls of the reader have given. -/
  reads : List ReadEvent

structure Copied (σ : Type) where
  result : Except (Side × IoError) Nat
  encoder : σ
  writer : Writer
  /-- What the reader has not been asked for. -/
  unread : List ReadEvent

namespace Encoder

variable (E : Encoder)

/-- Offers octets in one call, and again when it is interrupted.  Every repetition uses up an event
of the writer; a writer that would interrupt for ever fails in the end. -/
def writeRepeating : (fuel : Nat) → E.State → Writer → Bytes →
    Except IoError Nat × E.State × Writer
  | 0, s, w, octets => (E.write s octets).run w
  | fuel + 1, s, w, octets =>
    match (E.write s octets).run w with
    | (.error e, s, w) =>
      if e.isInterrupted then writeRepeating fuel s w octets else (.error e, s, w)
    | (.ok n, s, w) => (.ok n, s, w)

/-- Offers octets until all of them have been taken.  Every call takes one, so `fuel` is enough when
it is at least the number of octets. -/
def feed : (fuel : Nat) → E.State → Writer → Bytes → Option IoError × E.State × Writer
  | 0, s, w, octets => (if octets = [] then none else some .nothingTaken, s, w)
  | fuel + 1, s, w, octets =>
    if octets = [] then (none, s, w)
    else match E.writeRepeating w.events.length s w octets with
      | (.error e, s, w) => (some e, s, w)
      | (.ok 0, s, w) => (some .nothingTaken, s, w)
      | (.ok n, s, w) => feed fuel s w (octets.drop n)

/-- Copies what a reader gives until it ends; interrupted calls are repeated. -/
def copy : List ReadEvent → E.State → Writer → (count : Nat) → Copied E.State
  | [], s, w, count => ⟨.ok count, s, w, []⟩
  | .fault e :: events, s, w, count =>
    if e.isInterrupted then copy events s w count else ⟨.error (.reader, e), s, w, events⟩
  | .chunk octets :: events, s, w, count =>
    if octets = [] then ⟨.ok count, s, w, events⟩
    else match E.feed octets.length s w octets with
      | (some e, s, w) => ⟨.error (.writer, e), s, w, events⟩
      | (none, s, w) => copy events s w (count + octets.length)

/-- Drops an encoder that has not been finished.  Failures no longer count. -/
def abandon (s : E.State) (w : Writer) : Writer :=
  let (_, s, w) := (E.finish s).run w
  ((E.leave s).run w).2.2

end Encoder

/-- Compresses what the reader gives into one member. -/
def compress (reader : List ReadEvent) (writer : Writer) (E : Encoder := Gzip.encoder) : Outcome :=
  let copied := E.copy reader E.start writer 0
  let reads := reader.take (reader.length - copied.unread.length)
  match copied.result with
  | .error failure => ⟨.error failure, E.abandon copied.encoder copied.writer, reads⟩
  | .ok count =>
    match (E.finish copied.encoder).run copied.writer with
    | (.error e, s, w) => ⟨.error (.writer, e), E.abandon s w, reads⟩
    | (.ok (), _, w) =>
      match w.flush with
      | some e => ⟨.error (.writer, e), w, reads⟩
      | none => ⟨.ok count, w, reads⟩

def bufferSize : Nat := 8192

/-- Puts chunks of at most `size` octets in front of `acc`, latest first.  Every chunk has an
octet, so `fuel` is enough when it is at least the number of octets. -/
def chunksOnto (size : Nat) : (fuel : Nat) → (acc : List ReadEvent) → Bytes → List ReadEvent
  | 0, acc, _ => acc
  | fuel + 1, acc, octets =>
    if octets = [] then acc
    else
      chunksOnto size fuel (.chunk (octets.take (max 1 size)) :: acc) (octets.drop (max 1 size))

def chunks (size : Nat) (octets : Bytes) : List ReadEvent :=
  (chunksOnto size octets.length [] octets).reverse

def readerOf (octets : Bytes) : List ReadEvent := chunks bufferSize octets

end GzipStage.Transfer
