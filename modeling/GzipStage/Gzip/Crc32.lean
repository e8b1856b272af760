import GzipStage.Octet

/-!
The checksum CRC-32: the remainder of the contents, as a polynomial over the two-element field,
by the polynomial `0xEDB88320` with its bits reversed.
-/
namespace GzipStage.Gzip

structure Crc32 where
  register : UInt32
  deriving DecidableEq

namespace Crc32

def empty : Crc32 := ⟨0xffffffff⟩

def shift (r : UInt32) : UInt32 :=
  if r &&& 1 = 1 then (r >>> 1) ^^^ 0xedb88320 else r >>> 1

def push (c : Crc32) (b : UInt8) : Crc32 :=
  ⟨shift (shift (shift (shift (shift (shift (shift (shift (c.register ^^^ b.toUInt32))))))))⟩

def pushAll (c : Crc32) (bs : Bytes) : Crc32 := bs.foldl push c

theorem pushAll_append (c : Crc32) (as bs : Bytes) :
    c.pushAll (as ++ bs) = (c.pushAll as).pushAll bs := List.foldl_append

def value (c : Crc32) : UInt32 := c.register ^^^ 0xffffffff

end Crc32

def crc32 (bs : Bytes) : UInt32 := (Crc32.empty.pushAll bs).value

end GzipStage.Gzip
