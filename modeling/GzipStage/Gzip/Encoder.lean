import GzipStage.Gzip.Member
import GzipStage.Transfer.Encoder

/-!
The encoder of this library.  Compressed data stays in memory until a good amount has gathered or
the contents end; then it has to be sent before anything else is taken.
-/
namespace GzipStage.Gzip

open Transfer

def releaseSize : Nat := 31744

structure Draft where
  /-- The octets of the header that are still to be sent. -/
  header : Bytes
  deflater : Deflate.Deflater
  /-- How many octets of the compressed data have been sent. -/
  written : Nat
  /-- How many of them have to be sent before anything else is taken. -/
  due : Nat
  ended : Bool
  /-- The octets of the trailer that are still to be sent, once the contents have ended. -/
  trailer : Bytes

namespace Draft

variable {α : Type}

def start : Draft := ⟨Gzip.header, .empty, 0, 0, false, []⟩

def dueOctets (d : Draft) : Bytes := (d.deflater.settled.extract d.written d.due).toList

def sendHeader (d : Draft) (next : Draft → Call Draft α) : Call Draft α :=
  .sending d.header (fun left => { d with header := left }) (next { d with header := [] })

def sendDue (d : Draft) (next : Draft → Call Draft α) : Call Draft α :=
  .sending d.dueOctets (fun left => { d with written := d.due - left.length })
    (next { d with written := d.due })

def sendTrailer (d : Draft) (next : Draft → Call Draft α) : Call Draft α :=
  .sending d.trailer (fun left => { d with trailer := left }) (next { d with trailer := [] })

def take (d : Draft) (octets : Bytes) : Draft :=
  let deflater := d.deflater.pushAll octets
  let due :=
    if releaseSize ≤ deflater.settled.size - d.due then deflater.settled.size else d.due
  { d with deflater, due }

/-- Ends the contents: all compressed data is due, and the trailer is known. -/
def close (d : Draft) : Draft :=
  if d.ended then d
  else
    let contents := d.deflater.contents.toList
    let deflater := d.deflater.finish
    { d with
      deflater
      due := deflater.settled.size
      ended := true
      trailer := Gzip.trailer (crc32 contents) contents.length }

def write (d : Draft) (octets : Bytes) : Call Draft Nat :=
  d.sendHeader fun d => d.sendDue fun d => .answer octets.length (d.take octets)

def finish (d : Draft) : Call Draft Unit :=
  d.sendHeader fun d => d.close.sendDue fun d => d.sendTrailer fun d => .answer () d

def leave (d : Draft) : Call Draft Unit := d.close.sendDue fun d => .answer () d

end Draft

def encoder : Encoder where
  State := Draft
  start := .start
  write := Draft.write
  finish := Draft.finish
  leave := Draft.leave

end GzipStage.Gzip
