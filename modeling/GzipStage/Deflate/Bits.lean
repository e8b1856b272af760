import GzipStage.Octet

namespace GzipStage.Deflate

abbrev Bits := List Bool

def bitsOf : (count : Nat) → (n : Nat) → Bits
  | 0, _ => []
  | count + 1, n => (n % 2 = 1) :: bitsOf count (n / 2)

def numberOf : Bits → Nat
  | [] => 0
  | b :: bs => b.toNat + 2 * numberOf bs

theorem length_bitsOf (count n : Nat) : (bitsOf count n).length = count := by
  induction count generalizing n with
  | zero => rfl
  | succ count ih => simp [bitsOf, ih]

def octetBits (b : UInt8) : Bits := bitsOf 8 b.toNat

def octetsBits (bs : Bytes) : Bits := bs.flatMap octetBits

def takeNumber : (count : Nat) → Bits → Option (Nat × Bits)
  | 0, bits => some (0, bits)
  | _ + 1, [] => none
  | count + 1, b :: bits => do
    let (n, bits) ← takeNumber count bits
    return (b.toNat + 2 * n, bits)

/-- Turns bits into octets, which are put in front of `acc` latest first, and gives the bits
left over. -/
def packOnto (acc : Bytes) : Bits → Bytes × Bits
  | b₀ :: b₁ :: b₂ :: b₃ :: b₄ :: b₅ :: b₆ :: b₇ :: bits =>
    packOnto (UInt8.ofNat (numberOf [b₀, b₁, b₂, b₃, b₄, b₅, b₆, b₇]) :: acc) bits
  | bits => (acc, bits)

def pack (bits : Bits) : Bytes × Bits :=
  let (acc, rest) := packOnto [] bits
  (acc.reverse, rest)

def padding (length : Nat) : Bits := List.replicate ((8 - length % 8) % 8) false

def packAll (bits : Bits) : Bytes := (pack (bits ++ padding bits.length)).1

end GzipStage.Deflate
