import GzipStage.Deflate.Chains
import GzipStage.Deflate.FixedCode

/-! Compressed data in blocks of a fixed size, written with the fixed code or stored. -/
namespace GzipStage.Deflate

def blockSize : Nat := 32768

def fixedBlock (final : Bool) (tokens : List Token) : Bits :=
  [final, true, false] ++ tokens.flatMap FixedCode.tokenBits ++ FixedCode.literalWord endSymbol

def storedBlock (final : Bool) (offset : Nat) (octets : Bytes) : Bits :=
  [final, false, false] ++ padding (offset + 3) ++ bitsOf 16 octets.length ++
    bitsOf 16 (65535 - octets.length) ++ octetsBits octets

def storedSize (offset count : Nat) : Nat := 3 + (padding (offset + 3)).length + 32 + 8 * count

structure Deflater where
  /-- The contents so far. -/
  contents : Array UInt8
  /-- Where the open block begins. -/
  start : Nat
  /-- The links of the positions before the open block. -/
  chains : Chains
  /-- The octets that the ended blocks fill. -/
  settled : Array UInt8
  /-- The bits of the ended blocks that do not fill an octet. -/
  rest : Bits

namespace Deflater

def empty : Deflater := ⟨#[], 0, .empty, #[], []⟩

def openBlock (d : Deflater) (final : Bool) : Bits × Chains :=
  let (tokens, chains) := tokensFrom d.contents d.start d.chains
  let fixed := fixedBlock final tokens
  let offset := d.rest.length
  if storedSize offset (d.contents.size - d.start) < fixed.length then
    (storedBlock final offset (d.contents.toList.drop d.start), chains)
  else (fixed, chains)

def endBlock (d : Deflater) (final : Bool) : Deflater :=
  let (bits, chains) := d.openBlock final
  let (out, rest) := pack (d.rest ++ bits)
  { contents := d.contents, start := d.contents.size, chains, settled := d.settled ++ out, rest }

/-- Takes one octet, and ends the open block when that makes it full. -/
def push (d : Deflater) (b : UInt8) : Deflater :=
  let d := { d with contents := d.contents.push b }
  if blockSize ≤ d.contents.size - d.start then d.endBlock false else d

def pushAll (d : Deflater) (bs : Bytes) : Deflater := bs.foldl push d

theorem pushAll_append (d : Deflater) (as bs : Bytes) :
    d.pushAll (as ++ bs) = (d.pushAll as).pushAll bs := List.foldl_append

def finish (d : Deflater) : Deflater :=
  let d := d.endBlock true
  { d with settled := d.settled ++ packAll d.rest, rest := [] }

end Deflater

def deflate (contents : Bytes) : Bytes :=
  (Deflater.empty.pushAll contents).finish.settled.toList

end GzipStage.Deflate
