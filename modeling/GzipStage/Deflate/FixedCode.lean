import GzipStage.Deflate.Symbol

namespace GzipStage.Deflate.FixedCode

/-- The code word of a literal, the end of a block or a length symbol. -/
def literalWord (symbol : Nat) : Bits :=
  let (count, n) :=
    if symbol < 144 then (8, 0x30 + symbol)
    else if symbol < 256 then (9, 0x190 + (symbol - 144))
    else if symbol < 280 then (7, symbol - 256)
    else (8, 0xc0 + (symbol - 280))
  (bitsOf count n).reverse

def distanceWord (symbol : Nat) : Bits := (bitsOf 5 symbol).reverse

def tokenBits : Token → Bits
  | .literal b => literalWord b.toNat
  | .copy length distance =>
    let (l, lengthBits) := toSymbol lengthRows length
    let (d, distanceBits) := toSymbol distanceRows distance
    literalWord (firstLengthSymbol + l) ++ lengthBits ++ distanceWord d ++ distanceBits

end GzipStage.Deflate.FixedCode
