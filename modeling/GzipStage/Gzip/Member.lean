import GzipStage.Deflate.Block
import GzipStage.Deflate.Inflate
import GzipStage.Gzip.Crc32

/-! Gzip members: a header, compressed data, and a trailer with the checksum and the length. -/
namespace GzipStage.Gzip

/-- The header of every member that is written: no name, no time, unknown system. -/
def header : Bytes := [0x1f, 0x8b, 0x08, 0, 0, 0, 0, 0, 0, 0xff]

def littleEndian : (count : Nat) → (n : Nat) → Bytes
  | 0, _ => []
  | count + 1, n => UInt8.ofNat (n % 256) :: littleEndian count (n / 256)

def ofLittleEndian : Bytes → Nat
  | [] => 0
  | b :: bs => b.toNat + 256 * ofLittleEndian bs

theorem length_littleEndian (count n : Nat) : (littleEndian count n).length = count := by
  induction count generalizing n with
  | zero => rfl
  | succ count ih => simp [littleEndian, ih]

def lengthModulus : Nat := 4294967296

def trailer (crc : UInt32) (length : Nat) : Bytes :=
  littleEndian 4 crc.toNat ++ littleEndian 4 (length % lengthModulus)

def encode (contents : Bytes) : Bytes :=
  header ++ Deflate.deflate contents ++ trailer (crc32 contents) contents.length

structure Member where
  /-- The fixed part of the header. -/
  header : Bytes
  contents : Bytes
  /-- The checksum that the trailer gives. -/
  crc : Nat
  /-- The length that the trailer gives. -/
  length : Nat
  /-- The number of octets of the whole member. -/
  size : Nat

def flag (flags : UInt8) (bit : Nat) : Bool := flags.toNat.testBit bit

def dropExactly (count : Nat) (s : Bytes) : Option Bytes :=
  if count ≤ s.length then some (s.drop count) else none

def dropText : Bytes → Option Bytes
  | [] => none
  | b :: s => if b = 0 then some s else dropText s

/-- Drops the parts of a header that its flags announce: extra data, a name, a comment, and the
low half of the checksum of the header, which begins `s`. -/
def dropOptional (flags : UInt8) (s rest : Bytes) : Option Bytes := do
  let rest ←
    if flag flags 2 then do
      let after ← dropExactly 2 rest
      dropExactly (ofLittleEndian (rest.take 2)) after
    else some rest
  let rest ← if flag flags 3 then dropText rest else some rest
  let rest ← if flag flags 4 then dropText rest else some rest
  if flag flags 1 then
    let after ← dropExactly 2 rest
    let sum := (crc32 (s.take (s.length - rest.length))).toNat % 65536
    if ofLittleEndian (rest.take 2) = sum then some after else none
  else some rest

def dropHeader (s : Bytes) : Option Bytes :=
  match s with
  | 0x1f :: 0x8b :: 0x08 :: flags :: _ :: _ :: _ :: _ :: _ :: _ :: rest =>
    if flags < 32 then dropOptional flags s rest else none
  | _ => none

def read? (s : Bytes) : Option Member := do
  let body ← dropHeader s
  let (out, bits) ← Deflate.inflate (Deflate.octetsBits body)
  let contents := out.toList
  let rest := body.drop (body.length - bits.length / 8)
  let after ← dropExactly 8 rest
  let crc := ofLittleEndian (rest.take 4)
  let length := ofLittleEndian ((rest.drop 4).take 4)
  if crc = (crc32 contents).toNat && length = contents.length % lengthModulus then
    some ⟨s.take 10, contents, crc, length, s.length - after.length⟩
  else none

end GzipStage.Gzip
