import GzipStage.Deflate.Bits
import GzipStage.Deflate.Token

/-! Lengths and distances as symbols. -/
namespace GzipStage.Deflate

def endSymbol : Nat := 256

def firstLengthSymbol : Nat := 257

def lengthRows : List (Nat × Nat) :=
  [(3, 0), (4, 0), (5, 0), (6, 0), (7, 0), (8, 0), (9, 0), (10, 0), (11, 1), (13, 1), (15, 1),
    (17, 1), (19, 2), (23, 2), (27, 2), (31, 2), (35, 3), (43, 3), (51, 3), (59, 3), (67, 4),
    (83, 4), (99, 4), (115, 4), (131, 5), (163, 5), (195, 5), (227, 5), (258, 0)]

def distanceRows : List (Nat × Nat) :=
  [(1, 0), (2, 0), (3, 0), (4, 0), (5, 1), (7, 1), (9, 2), (13, 2), (17, 3), (25, 3), (33, 4),
    (49, 4), (65, 5), (97, 5), (129, 6), (193, 6), (257, 7), (385, 7), (513, 8), (769, 8),
    (1025, 9), (1537, 9), (2049, 10), (3073, 10), (4097, 11), (6145, 11), (8193, 12),
    (12289, 12), (16385, 13), (24577, 13)]

/-- The last row whose base is at most `n`: its index and the row.  `index` is the index of the
first of the rows, `found` the answer so far. -/
def findRow (n : Nat) : (rows : List (Nat × Nat)) → (index : Nat) →
    (found : Nat × Nat × Nat) → Nat × Nat × Nat
  | [], _, found => found
  | (base, extra) :: rows, index, found =>
    if base ≤ n then findRow n rows (index + 1) (index, base, extra) else found

def toSymbol (rows : List (Nat × Nat)) (n : Nat) : Nat × Bits :=
  let (index, base, extra) := findRow n rows 0 (0, 0, 0)
  (index, bitsOf extra (n - base))

/-- The number meant by a symbol and the extra bits that follow, and the bits left. -/
def ofSymbol (rows : List (Nat × Nat)) (index : Nat) (bits : Bits) : Option (Nat × Bits) := do
  let (base, extra) ← rows[index]?
  let (n, bits) ← takeNumber extra bits
  return (base + n, bits)

end GzipStage.Deflate
