import GzipStage.Transfer.Writer

namespace GzipStage.Transfer

/-- What one operation of an encoder does: it sends octets, batch by batch, and answers in the end.
A batch that is not taken in full ends the operation with the error of the writer, and leaves the
encoder as `kept` says for the octets that are left. -/
inductive Call (σ α : Type) where
  | answer (a : α) (s : σ)
  | send (octets : Bytes) (kept : Bytes → σ) (next : Call σ α)

namespace Call

variable {σ α : Type}

def sending (octets : Bytes) (kept : Bytes → σ) (next : Call σ α) : Call σ α :=
  if octets = [] then next else .send octets kept next

/-- What comes of an operation: the answer or the error, the encoder and the writer. -/
def run : Call σ α → Writer → Except IoError α × σ × Writer
  | .answer a s, w => (.ok a, s, w)
  | .send octets kept next, w =>
    match w.writeAll octets with
    | (some e, left, w) => (.error e, kept left, w)
    | (none, _, w) => next.run w

end Call

/-- An encoder: its states, and what its operations do. -/
structure Encoder where
  State : Type
  /-- Nothing has been taken and nothing sent. -/
  start : State
  /-- Takes some of the octets that are offered, and answers how many. -/
  write : State → Bytes → Call State Nat
  /-- Ends the contents and sends the rest. -/
  finish : State → Call State Unit
  /-- What is still tried when the encoder is dropped and `finish` has been tried. -/
  leave : State → Call State Unit

end GzipStage.Transfer
