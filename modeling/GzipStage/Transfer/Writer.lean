import GzipStage.IoError
import GzipStage.Octet

/-! Readers and writers as lists of what they are going to do, and for a writer the habit that it
keeps to afterwards. -/
namespace GzipStage.Transfer

/-- What one call of a reader gives. -/
inductive ReadEvent where
  | chunk (octets : Bytes)
  | fault (e : IoError)

/-- Whether a call of a reader has failed and is not to be repeated. -/
def ReadEvent.fails : ReadEvent → Bool
  | .chunk _ => false
  | .fault e => !e.isInterrupted

inductive WriteFault where
  /-- The call fails. -/
  | refuse (e : IoError)
  /-- The call takes nothing. -/
  | stall
  deriving DecidableEq

def WriteFault.error : WriteFault → IoError
  | .refuse e => e
  | .stall => .writeZero

inductive WriteEvent where
  /-- Takes `total` octets, at most `piece` in one call. -/
  | take (total piece : Nat)
  /-- One call goes wrong. -/
  | fault (f : WriteFault)

inductive Habit where
  /-- Takes octets, at most `piece` in one call if there is a limit. -/
  | take (piece : Option Nat)
  /-- Every call goes wrong. -/
  | fault (f : WriteFault)

/-- A writer: what its next calls meet, and what it keeps to after them. -/
structure Writer where
  events : List WriteEvent
  habit : Habit
  /-- What is wrong when the writer is told to flush. -/
  flush : Option IoError
  /-- The octets taken so far. -/
  accepted : Array UInt8

namespace Writer

def generous : Writer := ⟨[], .take none, none, #[]⟩

def broken (f : WriteFault) : Writer := ⟨[], .fault f, none, #[]⟩

def take (w : Writer) (piece : Bytes) : Except IoError Nat × Writer :=
  (.ok piece.length, { w with accepted := w.accepted ++ piece })

def fail (w : Writer) : WriteFault → Except IoError Nat × Writer
  | .refuse e => (.error e, w)
  | .stall => (.ok 0, w)

def write (w : Writer) (octets : Bytes) : Except IoError Nat × Writer :=
  match w.events with
  | .take total piece :: events =>
    let part := octets.take (min total piece)
    let left := total - part.length
    { w with events := if left = 0 then events else .take left piece :: events }.take part
  | .fault f :: events => { w with events }.fail f
  | [] =>
    match w.habit with
    | .take none => w.take octets
    | .take (some piece) => w.take (octets.take piece)
    | .fault f => w.fail f

/-- Offers octets until all are taken or a call goes wrong: the error, the octets that were not
taken, and the writer.  Every call takes an octet, so `fuel` is enough when it is at least the
number of octets. -/
def drain : (fuel : Nat) → Writer → Bytes → Option IoError × Bytes × Writer
  | 0, w, octets => (if octets = [] then none else some .writeZero, octets, w)
  | fuel + 1, w, octets =>
    if octets = [] then (none, [], w)
    else match w.write octets with
      | (.error e, w) => (some e, octets, w)
      | (.ok 0, w) => (some .writeZero, octets, w)
      | (.ok n, w) => drain fuel w (octets.drop n)

def writeAll (w : Writer) (octets : Bytes) : Option IoError × Bytes × Writer :=
  drain octets.length w octets

end Writer

end GzipStage.Transfer
