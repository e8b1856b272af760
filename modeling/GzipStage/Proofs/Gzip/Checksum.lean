import GzipStage.Gzip.Crc32
import GzipStage.Proofs.Deflate.Bits
import Mathlib.Algebra.Field.ZMod
import Mathlib.Data.Nat.Bitwise
import Mathlib.RingTheory.AdjoinRoot

namespace GzipStage.Gzip

open Deflate Polynomial

/-! ### Checksums as remainders -/

/-- Bits as the coefficients of a polynomial over the two-element field, that of the highest power
first. -/
noncomputable def polynomialOf : Bits → (ZMod 2)[X]
  | [] => 0
  | b :: bits => C (b.toNat : ZMod 2) * X ^ bits.length + polynomialOf bits

noncomputable def generator : (ZMod 2)[X] :=
  X ^ 32 + X ^ 26 + X ^ 23 + X ^ 22 + X ^ 16 + X ^ 12 + X ^ 11 + X ^ 10 + X ^ 8 + X ^ 7 + X ^ 5 +
    X ^ 4 + X ^ 2 + X + 1

def ones : Bits := List.replicate 32 true

/-- The checksum of octets, as ISO 3309 and RFC 1952 define it: the remainder of their bits moved up
by thirty-two places, the first thirty-two of all of them inverted, with its own bits inverted. -/
def IsChecksum (crc : Nat) (bs : Bytes) : Prop :=
  crc < 2 ^ 32 ∧
    (polynomialOf (octetsBits bs) * X ^ 32 + polynomialOf ones * X ^ (8 * bs.length)) %ₘ generator +
      polynomialOf ones = polynomialOf (bitsOf 32 crc)

/-! ### Bits as polynomials -/

theorem polynomialOf_append (as bs : Bits) :
    polynomialOf (as ++ bs) = polynomialOf as * X ^ bs.length + polynomialOf bs := by
  induction as with
  | nil => simp [polynomialOf]
  | cons a as ih =>
    rw [List.cons_append, polynomialOf, polynomialOf, ih, List.length_append, pow_add]
    ring

theorem degree_polynomialOf_lt (bits : Bits) : (polynomialOf bits).degree < bits.length := by
  induction bits with
  | nil => simp [polynomialOf]
  | cons b bits ih =>
    rw [polynomialOf, List.length_cons]
    apply lt_of_le_of_lt (degree_add_le _ _)
    apply max_lt
    · exact lt_of_le_of_lt (degree_C_mul_X_pow_le _ _) (by exact_mod_cast Nat.lt_succ_self _)
    · exact ih.trans (by exact_mod_cast Nat.lt_succ_self _)

theorem coeff_polynomialOf_length (b : Bool) (bits : Bits) :
    (polynomialOf (b :: bits)).coeff bits.length = (b.toNat : ZMod 2) := by
  rw [polynomialOf, coeff_add, coeff_C_mul, coeff_X_pow_self,
    coeff_eq_zero_of_degree_lt (degree_polynomialOf_lt bits), mul_one, add_zero]

theorem polynomialOf_inj {as bs : Bits} (hlength : as.length = bs.length)
    (h : polynomialOf as = polynomialOf bs) : as = bs := by
  induction as generalizing bs with
  | nil => exact (List.eq_nil_of_length_eq_zero hlength.symm).symm
  | cons a as ih =>
    cases bs with
    | nil => cases hlength
    | cons b bs =>
      have hsame : as.length = bs.length := Nat.succ.inj hlength
      have hfirst : (a.toNat : ZMod 2) = b.toNat := by
        rw [← coeff_polynomialOf_length a as, ← coeff_polynomialOf_length b bs, h, hsame]
      rw [polynomialOf, polynomialOf, hfirst, hsame] at h
      rw [ih hsame (add_left_cancel h)]
      cases a <;> cases b <;> simp_all

/-! ### Numbers as polynomials -/

theorem polynomialOf_bitsOf_succ (count n : Nat) :
    polynomialOf (bitsOf (count + 1) n) =
      C (n : ZMod 2) * X ^ count + polynomialOf (bitsOf count (n / 2)) := by
  have hbit : (decide (n % 2 = 1)).toNat = n % 2 := by
    rcases Nat.mod_two_eq_zero_or_one n with h | h <;> simp [h]
  rw [bitsOf, polynomialOf, length_bitsOf, hbit, ZMod.natCast_mod]

theorem polynomialOf_xor (count m n : Nat) :
    polynomialOf (bitsOf count (m ^^^ n)) =
      polynomialOf (bitsOf count m) + polynomialOf (bitsOf count n) := by
  induction count generalizing m n with
  | zero => simp [bitsOf, polynomialOf]
  | succ count ih =>
    have hlow : ((m ^^^ n : Nat) : ZMod 2) = m + n := by
      rw [← ZMod.natCast_mod, Nat.xor_mod_two_eq, ZMod.natCast_mod, Nat.cast_add]
    simp only [polynomialOf_bitsOf_succ, Nat.xor_div_two, ih, hlow, C_add]
    ring

theorem polynomialOf_bitsOf_add {count n : Nat} (h : n < 2 ^ count) (more : Nat) :
    polynomialOf (bitsOf (count + more) n) = polynomialOf (bitsOf count n) * X ^ more := by
  induction count generalizing n with
  | zero =>
    obtain rfl : n = 0 := by omega
    induction more with
    | zero => simp [bitsOf, polynomialOf]
    | succ more ih =>
      rw [← Nat.add_assoc, polynomialOf_bitsOf_succ]
      simpa [bitsOf, polynomialOf] using ih
  | succ count ih =>
    have hhalf : n / 2 < 2 ^ count := by
      rw [pow_succ] at h
      omega
    rw [Nat.add_right_comm, polynomialOf_bitsOf_succ, polynomialOf_bitsOf_succ, ih hhalf, pow_add]
    ring

theorem numberOf_bitsOf (count n : Nat) : numberOf (bitsOf count n) = n % 2 ^ count := by
  induction count generalizing n with
  | zero => simp [bitsOf, numberOf, Nat.mod_one]
  | succ count ih =>
    have hbit : (decide (n % 2 = 1)).toNat = n % 2 := by
      rcases Nat.mod_two_eq_zero_or_one n with h | h <;> simp [h]
    rw [bitsOf, numberOf, ih, hbit, pow_succ', Nat.mod_mul]

/-! ### The register -/

theorem generator_eq : generator = X ^ 32 + polynomialOf (bitsOf 32 0xedb88320) := by
  simp [generator, bitsOf, polynomialOf]
  ring

theorem generator_monic : generator.Monic := by
  rw [generator_eq]
  exact monic_X_pow_add (degree_polynomialOf_lt _)

theorem degree_generator : generator.degree = 32 := by
  have hlow : (polynomialOf (bitsOf 32 0xedb88320)).degree < ((X : (ZMod 2)[X]) ^ 32).degree := by
    rw [degree_X_pow]
    exact degree_polynomialOf_lt _
  rw [generator_eq, degree_add_eq_left_of_degree_lt hlow, degree_X_pow]
  rfl

noncomputable def remainder (r : UInt32) : AdjoinRoot generator :=
  AdjoinRoot.mk generator (polynomialOf (bitsOf 32 r.toNat))

theorem remainder_xor (r s : UInt32) : remainder (r ^^^ s) = remainder r + remainder s := by
  rw [remainder, UInt32.toNat_xor, polynomialOf_xor, map_add]
  rfl

theorem root_pow_eq : AdjoinRoot.root generator ^ 32 = remainder 0xedb88320 := by
  have hzero : AdjoinRoot.mk generator (X ^ 32 + polynomialOf (bitsOf 32 0xedb88320)) = 0 :=
    (congrArg (AdjoinRoot.mk generator) generator_eq).symm.trans AdjoinRoot.mk_self
  have htwo : (2 : AdjoinRoot generator) = 0 := by
    rw [← map_ofNat (AdjoinRoot.of generator) 2, show (2 : ZMod 2) = 0 from rfl, map_zero]
  rw [map_add, map_pow, AdjoinRoot.mk_X] at hzero
  change _ + remainder 0xedb88320 = 0 at hzero
  linear_combination hzero - remainder 0xedb88320 * htwo

theorem remainder_half {r : UInt32} (h : r.toNat < 2147483648) :
    remainder r = AdjoinRoot.mk generator (polynomialOf (bitsOf 31 r.toNat)) *
      AdjoinRoot.root generator := by
  rw [remainder, show 32 = 31 + 1 from rfl, polynomialOf_bitsOf_add h, pow_one, map_mul,
    AdjoinRoot.mk_X]

theorem remainder_shift (r : UInt32) :
    remainder (Crc32.shift r) = remainder r * AdjoinRoot.root generator := by
  have hhalf : (r >>> 1).toNat = r.toNat / 2 := by
    rw [UInt32.toNat_shiftRight]
    exact Nat.shiftRight_one r.toNat
  have hlow : (r >>> 1).toNat < 2147483648 := by
    have := r.toNat_lt
    omega
  have hbit : (r &&& 1).toNat = r.toNat % 2 := by
    rw [UInt32.toNat_and]
    exact Nat.and_one_is_mod r.toNat
  have hodd : r &&& 1 = 1 ↔ r.toNat % 2 = 1 := by
    rw [← UInt32.toNat_inj, hbit]
    rfl
  have hsplit : remainder r =
      AdjoinRoot.of generator ((r.toNat % 2 : Nat) : ZMod 2) * AdjoinRoot.root generator ^ 31 +
        AdjoinRoot.mk generator (polynomialOf (bitsOf 31 (r >>> 1).toNat)) := by
    rw [remainder, show 32 = 31 + 1 from rfl, polynomialOf_bitsOf_succ, hhalf, map_add, map_mul,
      map_pow, AdjoinRoot.mk_X, AdjoinRoot.mk_C, ZMod.natCast_mod]
  unfold Crc32.shift
  rw [hsplit]
  split
  next h =>
    rw [remainder_xor, remainder_half hlow, ← root_pow_eq, hodd.mp h, Nat.cast_one, map_one]
    ring
  next h =>
    have heven : r.toNat % 2 = 0 := by
      have := mt hodd.mpr h
      omega
    rw [remainder_half hlow, heven, Nat.cast_zero, map_zero]
    ring

theorem remainder_octet (b : UInt8) : remainder b.toUInt32 =
    AdjoinRoot.mk generator (polynomialOf (octetBits b)) * AdjoinRoot.root generator ^ 24 := by
  rw [remainder, UInt8.toNat_toUInt32, show 32 = 8 + 24 from rfl,
    polynomialOf_bitsOf_add b.toNat_lt, map_mul, map_pow, AdjoinRoot.mk_X]
  rfl

theorem remainder_push (c : Crc32) (b : UInt8) : remainder (c.push b).register =
    remainder c.register * AdjoinRoot.root generator ^ 8 +
      AdjoinRoot.mk generator (polynomialOf (octetBits b)) * AdjoinRoot.root generator ^ 32 := by
  simp only [Crc32.push, remainder_shift, remainder_xor, remainder_octet]
  ring

theorem remainder_pushAll (c : Crc32) (bs : Bytes) : remainder (c.pushAll bs).register =
    remainder c.register * AdjoinRoot.root generator ^ (8 * bs.length) +
      AdjoinRoot.mk generator (polynomialOf (octetsBits bs)) *
        AdjoinRoot.root generator ^ 32 := by
  induction bs generalizing c with
  | nil => simp [Crc32.pushAll, polynomialOf]
  | cons b bs ih =>
    rw [show c.pushAll (b :: bs) = (c.push b).pushAll bs from rfl, ih, remainder_push,
      octetsBits_cons, polynomialOf_append, length_octetsBits, map_add, map_mul, map_pow,
      AdjoinRoot.mk_X, List.length_cons, Nat.mul_succ, pow_add]
    ring

theorem bitsOf_ones : bitsOf 32 (0xffffffff : UInt32).toNat = ones := by decide

/-- The remainder that a checksum is made of, from the register that has taken all octets. -/
theorem message_modByMonic (bs : Bytes) :
    (polynomialOf (octetsBits bs) * X ^ 32 + polynomialOf ones * X ^ (8 * bs.length)) %ₘ generator =
      polynomialOf (bitsOf 32 (Crc32.empty.pushAll bs).register.toNat) := by
  have hsame := remainder_pushAll Crc32.empty bs
  have hempty : remainder Crc32.empty.register = AdjoinRoot.mk generator (polynomialOf ones) := by
    rw [remainder, ← bitsOf_ones]
    rfl
  rw [hempty, ← AdjoinRoot.mk_X, ← map_pow, ← map_pow, ← map_mul, ← map_mul, ← map_add, remainder,
    AdjoinRoot.mk_eq_mk] at hsame
  rw [add_comm, ← modByMonic_eq_of_dvd_sub generator_monic hsame,
    modByMonic_eq_self_iff generator_monic, degree_generator]
  exact degree_polynomialOf_lt _

theorem polynomialOf_crc32 (bs : Bytes) : polynomialOf (bitsOf 32 (crc32 bs).toNat) =
    polynomialOf (bitsOf 32 (Crc32.empty.pushAll bs).register.toNat) + polynomialOf ones := by
  rw [crc32, Crc32.value, UInt32.toNat_xor, polynomialOf_xor, bitsOf_ones]

/-- The checksum that is computed is the checksum of the octets, and the only one. -/
theorem isChecksum_iff {crc : Nat} {bs : Bytes} : IsChecksum crc bs ↔ crc = (crc32 bs).toNat := by
  unfold IsChecksum
  rw [message_modByMonic, ← polynomialOf_crc32]
  constructor
  · rintro ⟨hlt, hpoly⟩
    have hlength : (bitsOf 32 (crc32 bs).toNat).length = (bitsOf 32 crc).length := by
      rw [length_bitsOf, length_bitsOf]
    have hnumber := congrArg numberOf (polynomialOf_inj hlength hpoly)
    rw [numberOf_bitsOf, numberOf_bitsOf] at hnumber
    have := (crc32 bs).toNat_lt
    omega
  · rintro rfl
    exact ⟨(crc32 bs).toNat_lt, rfl⟩

/-- The check value of the checksum. -/
example : crc32 [0x31, 0x32, 0x33, 0x34, 0x35, 0x36, 0x37, 0x38, 0x39] = 0xcbf43926 := by
  decide +kernel

end GzipStage.Gzip
