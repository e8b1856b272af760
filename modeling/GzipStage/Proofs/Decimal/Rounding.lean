import GzipStage.Decimal.Shortest
import Mathlib.Algebra.Order.Field.Power
import Mathlib.Algebra.Order.Field.Rat
import Mathlib.Tactic.FieldSimp
import Mathlib.Tactic.Linarith
import Mathlib.Tactic.NormNum
import Mathlib.Tactic.Positivity
import Mathlib.Tactic.Ring

/-! Which decimal numbers round to a double, by the midpoints between it and its neighbours. -/
namespace GzipStage.Decimal

/-- The distance from the number with these bits to the next one. -/
def ulp (n : ℕ) : ℚ := 2 ^ ((max 1 (n / 2 ^ 52) : ℕ) - 1075 : ℤ)

def significand (n : ℕ) : ℕ := if n / 2 ^ 52 = 0 then n % 2 ^ 52 else n % 2 ^ 52 + 2 ^ 52

/-- The number with these bits, of which there are 63. -/
def magnitude (n : ℕ) : ℚ := significand n * ulp n

/-- The number halfway to the next one. -/
def midpoint (n : ℕ) : ℚ := (magnitude n + magnitude (n + 1)) / 2

/-- A number rounds to the nearest double, from a midpoint to the one with an even significand. -/
def RoundsTo (q : ℚ) (n : ℕ) : Prop :=
  if Even n then midpoint (n - 1) ≤ q ∧ q ≤ midpoint n else midpoint (n - 1) < q ∧ q < midpoint n

theorem ulp_pos (n : ℕ) : 0 < ulp n := by
  unfold ulp
  positivity

theorem magnitude_succ (n : ℕ) : magnitude (n + 1) = magnitude n + ulp n := by
  by_cases hlast : n % 2 ^ 52 = 2 ^ 52 - 1
  · have hdiv : (n + 1) / 2 ^ 52 = n / 2 ^ 52 + 1 := by omega
    have hmod : (n + 1) % 2 ^ 52 = 0 := by omega
    by_cases hzero : n / 2 ^ 52 = 0
    · have hmax : max 1 (n / 2 ^ 52 + 1) = max 1 (n / 2 ^ 52) := by omega
      simp only [magnitude, significand, ulp, hdiv, hmod, hmax, if_pos hzero, hlast,
        Nat.succ_ne_zero, if_false]
      push_cast
      ring
    · have hmax : max 1 (n / 2 ^ 52) = n / 2 ^ 52 := by omega
      have hmax' : max 1 (n / 2 ^ 52 + 1) = n / 2 ^ 52 + 1 := by omega
      have hstep : (2 : ℚ) ^ ((n / 2 ^ 52 + 1 : ℕ) - 1075 : ℤ) =
          2 ^ ((n / 2 ^ 52 : ℕ) - 1075 : ℤ) * 2 := by
        rw [← zpow_add_one₀ two_ne_zero]
        congr 1
        push_cast
        ring
      simp only [magnitude, significand, ulp, hdiv, hmod, hlast, if_neg hzero, hmax, hmax', hstep,
        Nat.succ_ne_zero, if_false]
      push_cast
      ring
  · have hdiv : (n + 1) / 2 ^ 52 = n / 2 ^ 52 := by omega
    have hmod : (n + 1) % 2 ^ 52 = n % 2 ^ 52 + 1 := by omega
    simp only [magnitude, significand, ulp, hdiv, hmod]
    split_ifs
    all_goals
      push_cast
      ring

theorem midpoint_eq (n : ℕ) : midpoint n = magnitude n + ulp n / 2 := by
  rw [midpoint, magnitude_succ]
  ring

/-! ### The interval around a double -/

theorem two_zpow_toNat (q : ℤ) : (2 : ℚ) ^ q = (2 ^ q.toNat : ℕ) / (2 ^ (-q).toNat : ℕ) := by
  obtain ⟨k, rfl | rfl⟩ := q.eq_nat_or_neg
  · simp
  · simp [zpow_neg]

variable {n : ℕ}

/-- The fields of a double as the search for its digits takes them. -/
def around (n : ℕ) : Rounded := .ofFields (n / 2 ^ 52) (n % 2 ^ 52)

theorem around_den_pos : 0 < (around n).den := by
  unfold around Rounded.ofFields
  exact Nat.pow_pos two_pos

theorem quarters_eq (n k : ℕ) :
    ((k * Nat.pow 2 (((max 1 (n / 2 ^ 52) : ℕ) : ℤ) - 1077).toNat : ℕ) : ℚ) /
        (Nat.pow 2 (-(((max 1 (n / 2 ^ 52) : ℕ) : ℤ) - 1077)).toNat : ℕ) = k * ulp n / 4 := by
  have hulp : ulp n = 2 ^ (((max 1 (n / 2 ^ 52) : ℕ) : ℤ) - 1077) * 4 := by
    have hfour : (4 : ℚ) = 2 ^ (2 : ℤ) := by norm_num
    rw [hfour, ← zpow_add₀ two_ne_zero, ulp]
    congr 1
    ring
  rw [hulp, two_zpow_toNat, Nat.cast_mul, mul_div_assoc, mul_div_assoc, mul_div_cancel_right₀]
  · rfl
  · exact four_ne_zero

theorem around_eq (n : ℕ) : around n =
    let q : ℤ := ((max 1 (n / 2 ^ 52) : ℕ) : ℤ) - 1077
    let below := if n % 2 ^ 52 = 0 && n / 2 ^ 52 > 1 then 1 else 2
    ⟨4 * significand n * Nat.pow 2 q.toNat, Nat.pow 2 (-q).toNat,
      (4 * significand n - below) * Nat.pow 2 q.toNat, (4 * significand n + 2) * Nat.pow 2 q.toNat,
      significand n % 2 = 0⟩ := by
  have hmax : (if n / 2 ^ 52 = 0 then (1 : ℤ) else (n / 2 ^ 52 : ℕ)) =
      ((max 1 (n / 2 ^ 52) : ℕ) : ℤ) := by
    split_ifs with hzero
    · rw [hzero]
      rfl
    · rw [max_eq_right (Nat.pos_of_ne_zero hzero)]
  unfold around Rounded.ofFields
  rw [hmax]
  rfl

theorem around_num (n : ℕ) : ((around n).num : ℚ) / (around n).den = magnitude n := by
  rw [around_eq]
  dsimp only
  rw [quarters_eq, magnitude]
  push_cast
  ring

theorem around_greatest (n : ℕ) : ((around n).greatest : ℚ) / (around n).den = midpoint n := by
  rw [around_eq]
  dsimp only
  rw [quarters_eq, midpoint_eq, magnitude]
  push_cast
  ring

theorem significand_pos (hn : 0 < n) : 0 < significand n := by
  unfold significand
  split_ifs with hzero
  · omega
  · omega

theorem ulp_pred_first {k : ℕ} (hmod : (k + 1) % 2 ^ 52 = 0) (hdiv : 1 < (k + 1) / 2 ^ 52) :
    ulp k = ulp (k + 1) / 2 := by
  have hmax : max 1 ((k + 1) / 2 ^ 52) = max 1 (k / 2 ^ 52) + 1 := by omega
  have hstep : (2 : ℚ) ^ ((max 1 (k / 2 ^ 52) + 1 : ℕ) - 1075 : ℤ) =
      2 ^ ((max 1 (k / 2 ^ 52) : ℕ) - 1075 : ℤ) * 2 := by
    rw [← zpow_add_one₀ two_ne_zero]
    congr 1
    push_cast
    ring
  rw [ulp, ulp, hmax, hstep, mul_div_cancel_right₀ _ two_ne_zero]

theorem ulp_pred_within {k : ℕ} (h : (k + 1) % 2 ^ 52 = 0 → (k + 1) / 2 ^ 52 ≤ 1) :
    ulp k = ulp (k + 1) := by
  have hmax : max 1 (k / 2 ^ 52) = max 1 ((k + 1) / 2 ^ 52) := by omega
  rw [ulp, ulp, hmax]

theorem around_least (hn : 0 < n) :
    ((around n).least : ℚ) / (around n).den = midpoint (n - 1) := by
  obtain ⟨k, rfl⟩ : ∃ k, n = k + 1 := ⟨n - 1, by omega⟩
  have hpos := significand_pos hn
  have hbelow : magnitude k = significand (k + 1) * ulp (k + 1) - ulp k := by
    rw [eq_sub_iff_add_eq, ← magnitude_succ, magnitude]
  rw [around_eq, Nat.add_sub_cancel, midpoint_eq, hbelow]
  dsimp only
  rw [quarters_eq]
  split
  case isTrue hfirst =>
    -- the numbers below a power of two lie half as far from one another
    obtain ⟨hmod, hdiv⟩ : (k + 1) % 2 ^ 52 = 0 ∧ 1 < (k + 1) / 2 ^ 52 := by simpa using hfirst
    rw [ulp_pred_first hmod hdiv, Nat.cast_sub (by omega)]
    push_cast
    ring
  case isFalse hfirst =>
    have hwithin : (k + 1) % 2 ^ 52 = 0 → (k + 1) / 2 ^ 52 ≤ 1 := by simpa using hfirst
    rw [ulp_pred_within hwithin, Nat.cast_sub (by omega)]
    push_cast
    ring

theorem around_inclusive (n : ℕ) : (around n).inclusive = decide (Even n) := by
  have hsame : significand n % 2 = n % 2 := by
    unfold significand
    split_ifs
    · omega
    · omega
  rw [around_eq]
  dsimp only
  rw [hsame]
  exact decide_eq_decide.mpr Nat.even_iff.symm

/-! ### Decimal numbers in the interval -/

def decimal (c : ℕ) (e : ℤ) : ℚ := c * 10 ^ e

theorem ten_zpow_toNat (e : ℤ) : (10 : ℚ) ^ e = (10 ^ e.toNat : ℕ) / (10 ^ (-e).toNat : ℕ) := by
  obtain ⟨k, rfl | rfl⟩ := e.eq_nat_or_neg
  · simp
  · simp [zpow_neg]

/-- A decimal number is compared with a fraction by multiplying out. -/
theorem div_le_decimal_iff {a d c : ℕ} {e : ℤ} (hd : 0 < d) :
    (a : ℚ) / d ≤ decimal c e ↔ a * Nat.pow 10 (-e).toNat ≤ c * Nat.pow 10 e.toNat * d := by
  have hd' : (0 : ℚ) < d := Nat.cast_pos.mpr hd
  have hten : (0 : ℚ) < (10 ^ (-e).toNat : ℕ) := Nat.cast_pos.mpr (Nat.pow_pos (by decide))
  rw [decimal, ten_zpow_toNat, ← mul_div_assoc, div_le_div_iff₀ hd' hten]
  exact_mod_cast Iff.rfl

theorem decimal_le_div_iff {a d c : ℕ} {e : ℤ} (hd : 0 < d) :
    decimal c e ≤ (a : ℚ) / d ↔ c * Nat.pow 10 e.toNat * d ≤ a * Nat.pow 10 (-e).toNat := by
  have hd' : (0 : ℚ) < d := Nat.cast_pos.mpr hd
  have hten : (0 : ℚ) < (10 ^ (-e).toNat : ℕ) := Nat.cast_pos.mpr (Nat.pow_pos (by decide))
  rw [decimal, ten_zpow_toNat, ← mul_div_assoc, div_le_div_iff₀ hten hd']
  exact_mod_cast Iff.rfl

theorem around_holds (hn : 0 < n) (c : ℕ) (e : ℤ) :
    (around n).holds c e = true ↔ RoundsTo (decimal c e) n := by
  have hden := around_den_pos (n := n)
  unfold Rounded.holds RoundsTo
  rw [← around_greatest n, ← around_least hn, around_inclusive]
  simp only [decide_eq_true_eq, ← not_le]
  split
  all_goals
    simp only [div_le_decimal_iff hden, decimal_le_div_iff hden, Bool.and_eq_true,
      decide_eq_true_eq, not_le]

end GzipStage.Decimal
