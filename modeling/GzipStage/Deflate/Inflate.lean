import GzipStage.Deflate.Huffman
import GzipStage.Deflate.Symbol

/-! Reading compressed data. -/
namespace GzipStage.Deflate

structure Trees where
  literals : Huffman.Tree
  distances : Huffman.Tree

def fixedLiteralLengths : List Nat :=
  List.replicate 144 8 ++ List.replicate 112 9 ++ List.replicate 24 7 ++ List.replicate 8 8

def fixedDistanceLengths : List Nat := List.replicate 32 5

def Trees.ofLengths (literals distances : List Nat) : Option Trees := do
  return ⟨← Huffman.ofLengths literals, ← Huffman.ofLengths distances⟩

def Trees.fixed : Option Trees :=
  Trees.ofLengths fixedLiteralLengths fixedDistanceLengths

/-- Reads what one symbol of a compressed block stands for: `none` for the end of the block. -/
def readToken (trees : Trees) (bits : Bits) : Option (Option Token × Bits) := do
  let (symbol, bits) ← trees.literals.decode bits
  if symbol < endSymbol then return (some (.literal (UInt8.ofNat symbol)), bits)
  else if symbol = endSymbol then return (none, bits)
  else
    let (length, bits) ← ofSymbol lengthRows (symbol - firstLengthSymbol) bits
    let (symbol, bits) ← trees.distances.decode bits
    let (distance, bits) ← ofSymbol distanceRows symbol bits
    return (some (.copy length distance), bits)

/-- Reads symbols up to the end of a block.  Every symbol takes a bit, so `fuel` is enough when
it exceeds the number of bits. -/
def readTokens (trees : Trees) : (fuel : Nat) → Array UInt8 → Bits → Option (Array UInt8 × Bits)
  | 0, _, _ => none
  | fuel + 1, out, bits =>
    match readToken trees bits with
    | none => none
    | some (none, bits) => some (out, bits)
    | some (some token, bits) =>
      match token.appendTo out with
      | none => none
      | some out => readTokens trees fuel out bits

def readOctets : (count : Nat) → Array UInt8 → Bits → Option (Array UInt8 × Bits)
  | 0, out, bits => some (out, bits)
  | count + 1, out, bits =>
    match takeNumber 8 bits with
    | none => none
    | some (n, bits) => readOctets count (out.push (UInt8.ofNat n)) bits

/-- Drops the bits up to the next whole octet.  The bits are known to end with a whole octet. -/
def align (bits : Bits) : Bits := bits.drop (bits.length % 8)

/-- Reads a stored block: its length, the same inverted, and the octets. -/
def readStored (out : Array UInt8) (bits : Bits) : Option (Array UInt8 × Bits) := do
  let (length, bits) ← takeNumber 16 (align bits)
  let (inverse, bits) ← takeNumber 16 bits
  if length + inverse = 65535 then readOctets length out bits else none

/-- The order in which the word lengths of the code for word lengths are given. -/
def metaOrder : List Nat := [16, 17, 18, 0, 8, 7, 9, 6, 10, 5, 11, 4, 12, 3, 13, 2, 14, 1, 15]

def readMetaLengths : (count : Nat) → Bits → Option (List Nat × Bits)
  | 0, bits => some ([], bits)
  | count + 1, bits => do
    let (n, bits) ← takeNumber 3 bits
    let (ns, bits) ← readMetaLengths count bits
    return (n :: ns, bits)

/-- Reads word lengths until `count` are known; `known` holds them latest first.  A symbol may
repeat the latest length or stand for several zeros. -/
def readLengths (tree : Huffman.Tree) (count : Nat) :
    (fuel : Nat) → (known : List Nat) → Bits → Option (List Nat × Bits)
  | 0, known, bits => if known.length = count then some (known.reverse, bits) else none
  | fuel + 1, known, bits =>
    if count ≤ known.length then
      if known.length = count then some (known.reverse, bits) else none
    else do
      let (symbol, bits) ← tree.decode bits
      if symbol < 16 then readLengths tree count fuel (symbol :: known) bits
      else if symbol = 16 then
        let last ← known.head?
        let (n, bits) ← takeNumber 2 bits
        readLengths tree count fuel (List.replicate (n + 3) last ++ known) bits
      else
        let (extra, least) := if symbol = 17 then (3, 3) else (7, 11)
        let (n, bits) ← takeNumber extra bits
        readLengths tree count fuel (List.replicate (n + least) 0 ++ known) bits

def maxLiteralWords : Nat := 286

/-- The greatest number of distance words that a dynamic block may have. -/
def maxDistanceWords : Nat := 30

/-- Reads the code of a dynamic block.  It has to have a word for the end of the block. -/
def readTrees (bits : Bits) : Option (Trees × Bits) := do
  let (literals, bits) ← takeNumber 5 bits
  let (distances, bits) ← takeNumber 5 bits
  let (metas, bits) ← takeNumber 4 bits
  let literals := literals + 257
  let distances := distances + 1
  if literals > maxLiteralWords || distances > maxDistanceWords then none
  let (given, bits) ← readMetaLengths (metas + 4) bits
  let lengths := (List.range 19).map fun symbol =>
    ((metaOrder.zip given).lookup symbol).getD 0
  let tree ← Huffman.ofLengths lengths
  let (lengths, bits) ← readLengths tree (literals + distances) (literals + distances) [] bits
  if lengths[endSymbol]? = some 0 then none
  let trees ← Trees.ofLengths (lengths.take literals) (lengths.drop literals)
  return (trees, bits)

def readBlock (fuel : Nat) (out : Array UInt8) (bits : Bits) :
    Option (Bool × Array UInt8 × Bits) := do
  let (final, bits) ← takeNumber 1 bits
  let (kind, bits) ← takeNumber 2 bits
  let (out, bits) ←
    if kind = 0 then readStored out bits
    else if kind = 1 then do readTokens (← Trees.fixed) fuel out bits
    else if kind = 2 then do
      let (trees, bits) ← readTrees bits
      readTokens trees fuel out bits
    else none
  return (final = 1, out, bits)

/-- Reads blocks up to the final one.  Every block takes a bit, so `fuel` is enough when it
exceeds the number of bits. -/
def readBlocks : (fuel : Nat) → Array UInt8 → Bits → Option (Array UInt8 × Bits)
  | 0, _, _ => none
  | fuel + 1, out, bits =>
    match readBlock (fuel + 1) out bits with
    | none => none
    | some (true, out, bits) => some (out, bits)
    | some (false, out, bits) => readBlocks fuel out bits

def inflate (bits : Bits) : Option (Array UInt8 × Bits) := readBlocks (bits.length + 1) #[] bits

end GzipStage.Deflate
