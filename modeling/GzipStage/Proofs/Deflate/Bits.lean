import GzipStage.Deflate.Bits
import Mathlib.Tactic

/-! Numbers and octets are read back from the bits they are written as. -/
namespace GzipStage.Deflate

theorem takeNumber_bitsOf (count n : Nat) (tail : Bits) :
    takeNumber count (bitsOf count n ++ tail) = some (n % 2 ^ count, tail) := by
  induction count generalizing n with
  | zero => simp [takeNumber, bitsOf, Nat.mod_one]
  | succ count ih =>
    have hmod : n % 2 ^ (count + 1) = n % 2 + 2 * (n / 2 % 2 ^ count) := by
      rw [pow_succ', Nat.mod_mul]
    have hbit : (decide (n % 2 = 1)).toNat = n % 2 := by
      rcases Nat.mod_two_eq_zero_or_one n with h | h <;> simp [h]
    simp [bitsOf, takeNumber, ih, hmod, hbit]

theorem takeNumber_bitsOf_of_lt (count : Nat) {n : Nat} (h : n < 2 ^ count) (tail : Bits) :
    takeNumber count (bitsOf count n ++ tail) = some (n, tail) := by
  rw [takeNumber_bitsOf, Nat.mod_eq_of_lt h]

theorem numberOf_lt (bits : Bits) : numberOf bits < 2 ^ bits.length := by
  induction bits with
  | nil => simp [numberOf]
  | cons b bits ih =>
    have hb : b.toNat ≤ 1 := by cases b <;> simp
    simp only [numberOf, List.length_cons, pow_succ]
    omega

theorem bitsOf_numberOf (bits : Bits) : bitsOf bits.length (numberOf bits) = bits := by
  induction bits with
  | nil => rfl
  | cons b bits ih =>
    have hmod : (b.toNat + 2 * numberOf bits) % 2 = b.toNat := by
      cases b <;> simp only [Bool.toNat_false, Bool.toNat_true] <;> omega
    have hdiv : (b.toNat + 2 * numberOf bits) / 2 = numberOf bits := by
      cases b <;> simp only [Bool.toNat_false, Bool.toNat_true] <;> omega
    simp only [List.length_cons, numberOf, bitsOf, hmod, hdiv, ih]
    cases b <;> simp

theorem length_octetBits (b : UInt8) : (octetBits b).length = 8 := length_bitsOf 8 _

theorem octetBits_numberOf (bits : Bits) (h : bits.length = 8) :
    octetBits (UInt8.ofNat (numberOf bits)) = bits := by
  have hlt := numberOf_lt bits
  rw [h] at hlt
  rw [octetBits, UInt8.toNat_ofNat', Nat.mod_eq_of_lt hlt, ← h, bitsOf_numberOf]

@[simp] theorem octetsBits_nil : octetsBits [] = [] := rfl

@[simp] theorem octetsBits_cons (b : UInt8) (bs : Bytes) :
    octetsBits (b :: bs) = octetBits b ++ octetsBits bs := rfl

@[simp] theorem octetsBits_append (as bs : Bytes) :
    octetsBits (as ++ bs) = octetsBits as ++ octetsBits bs := List.flatMap_append

@[simp] theorem length_octetsBits (bs : Bytes) : (octetsBits bs).length = 8 * bs.length := by
  induction bs with
  | nil => rfl
  | cons b bs ih =>
    rw [octetsBits_cons, List.length_append, length_octetBits, ih, List.length_cons]
    omega

/-- Packing keeps every bit, and leaves fewer than eight of them over. -/
theorem packOnto_bits (acc : Bytes) (bits : Bits) :
    octetsBits (packOnto acc bits).1.reverse ++ (packOnto acc bits).2 =
        octetsBits acc.reverse ++ bits ∧
      (packOnto acc bits).2.length < 8 := by
  induction acc, bits using packOnto.induct with
  | case1 acc b₀ b₁ b₂ b₃ b₄ b₅ b₆ b₇ bits ih =>
    obtain ⟨hbits, hlen⟩ := ih
    refine ⟨?_, by simpa only [packOnto] using hlen⟩
    have hoctet := octetBits_numberOf [b₀, b₁, b₂, b₃, b₄, b₅, b₆, b₇] rfl
    rw [packOnto, hbits, List.reverse_cons, octetsBits_append, octetsBits_cons, hoctet]
    simp
  | case2 acc bits hshort =>
    have hlen : bits.length < 8 := by
      match bits, hshort with
      | [], _ | [_], _ | [_, _], _ | [_, _, _], _ | [_, _, _, _], _ | [_, _, _, _, _], _
      | [_, _, _, _, _, _], _ | [_, _, _, _, _, _, _], _ => simp
      | b₀ :: b₁ :: b₂ :: b₃ :: b₄ :: b₅ :: b₆ :: b₇ :: bits, hshort =>
        exact (hshort b₀ b₁ b₂ b₃ b₄ b₅ b₆ b₇ bits rfl).elim
    rw [packOnto.eq_2 _ _ hshort]
    exact ⟨rfl, hlen⟩

theorem pack_bits (bits : Bits) : octetsBits (pack bits).1 ++ (pack bits).2 = bits := by
  simpa [pack] using (packOnto_bits [] bits).1

theorem pack_rest_lt (bits : Bits) : (pack bits).2.length < 8 := (packOnto_bits [] bits).2

theorem length_padding_lt (length : Nat) : (padding length).length < 8 := by
  rw [padding, List.length_replicate]
  omega

theorem add_length_padding_mod (length : Nat) : (length + (padding length).length) % 8 = 0 := by
  rw [padding, List.length_replicate]
  omega

theorem packAll_bits (bits : Bits) :
    octetsBits (packAll bits) = bits ++ padding bits.length := by
  have hall := pack_bits (bits ++ padding bits.length)
  have hlt := pack_rest_lt (bits ++ padding bits.length)
  have hmod := add_length_padding_mod bits.length
  have hlen := congrArg List.length hall
  simp only [List.length_append, length_octetsBits] at hlen
  have hnil : (pack (bits ++ padding bits.length)).2 = [] := by
    apply List.eq_nil_of_length_eq_zero
    omega
  rw [hnil, List.append_nil] at hall
  exact hall

end GzipStage.Deflate
