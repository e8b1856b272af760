import GzipStage.Proofs.Decimal.Rounding

/-! The digits of a double: no fewer read back, and of those that do none are nearer. -/
namespace GzipStage.Decimal

variable {n c k : ℕ} {e : ℤ} {p q x : ℚ}

/-- How far a decimal number is from a double. -/
def off (n c : ℕ) (e : ℤ) : ℚ := |decimal c e - magnitude n|

/-- A decimal number reads back with the fewest digits, as near as any with as few, and of two that
are equally near it is the one that is even at the finer of their last places. -/
structure Shortest (n c : ℕ) (e : ℤ) : Prop where
  rounds : RoundsTo (decimal c e) n
  fewest : ∀ (c' k : ℕ) (e' : ℤ), RoundsTo (decimal c' e') n → c' < 10 ^ k → c < 10 ^ k
  nearest : ∀ (c' : ℕ) (e' : ℤ), RoundsTo (decimal c' e') n → (∀ k, c < 10 ^ k → c' < 10 ^ k) →
    off n c e ≤ off n c' e'
  even : ∀ (c' : ℕ) (e' : ℤ), RoundsTo (decimal c' e') n → (∀ k, c < 10 ^ k → c' < 10 ^ k) →
    off n c e = off n c' e' → decimal c' e' ≠ decimal c e → e' < e ∨ Even c

/-! ### The interval -/

theorem midpoint_lt_magnitude (hn : 0 < n) : midpoint (n - 1) < magnitude n := by
  obtain ⟨k, rfl⟩ : ∃ k, n = k + 1 := ⟨n - 1, by omega⟩
  have hpos := ulp_pos k
  rw [Nat.add_sub_cancel, midpoint_eq, magnitude_succ]
  linarith

theorem magnitude_lt_midpoint (n : ℕ) : magnitude n < midpoint n := by
  have hpos := ulp_pos n
  rw [midpoint_eq]
  linarith

theorem roundsTo_of_lt (hlow : midpoint (n - 1) < q) (hhigh : q < midpoint n) : RoundsTo q n := by
  unfold RoundsTo
  split
  · exact ⟨hlow.le, hhigh.le⟩
  · exact ⟨hlow, hhigh⟩

theorem roundsTo_magnitude (hn : 0 < n) : RoundsTo (magnitude n) n :=
  roundsTo_of_lt (midpoint_lt_magnitude hn) (magnitude_lt_midpoint n)

theorem RoundsTo.between (hp : RoundsTo p n) (hq : RoundsTo q n) (hpx : p ≤ x) (hxq : x ≤ q) :
    RoundsTo x n := by
  unfold RoundsTo at hp hq ⊢
  split at hp
  case isTrue heven =>
    rw [if_pos heven] at hq ⊢
    exact ⟨hp.1.trans hpx, hxq.trans hq.2⟩
  case isFalse hodd =>
    rw [if_neg hodd] at hq ⊢
    exact ⟨hp.1.trans_le hpx, hxq.trans_lt hq.2⟩

theorem ulp_pred (hn : 0 < n) : ulp (n - 1) ≤ ulp n ∧ magnitude n ≤ 2 ^ 53 * ulp (n - 1) := by
  obtain ⟨k, rfl⟩ : ∃ k, n = k + 1 := ⟨n - 1, by omega⟩
  have hpos := ulp_pos (k + 1)
  rw [Nat.add_sub_cancel, magnitude]
  by_cases hfirst : (k + 1) % 2 ^ 52 = 0 ∧ 1 < (k + 1) / 2 ^ 52
  · obtain ⟨hmod, hdiv⟩ := hfirst
    have hsignificand : significand (k + 1) = 2 ^ 52 := by
      rw [significand, if_neg (by omega), hmod, Nat.zero_add]
    rw [ulp_pred_first hmod hdiv, hsignificand]
    push_cast
    constructor
    · linarith
    · linarith
  · have hle : significand (k + 1) ≤ 2 ^ 53 := by
      unfold significand
      split_ifs
      · omega
      · omega
    have hle' : (significand (k + 1) : ℚ) ≤ 2 ^ 53 := by exact_mod_cast hle
    rw [ulp_pred_within (by omega)]
    exact ⟨le_refl _, mul_le_mul_of_nonneg_right hle' hpos.le⟩

/-- What is nearer than half a place below reads back. -/
theorem roundsTo_of_abs_lt (hn : 0 < n) (h : |q - magnitude n| < ulp (n - 1) / 2) :
    RoundsTo q n := by
  obtain ⟨hle, -⟩ := ulp_pred hn
  have hlow : midpoint (n - 1) = magnitude n - ulp (n - 1) / 2 := by
    have hsucc := magnitude_succ (n - 1)
    rw [Nat.sub_add_cancel hn] at hsucc
    rw [midpoint_eq, hsucc]
    ring
  obtain ⟨hleft, hright⟩ := abs_lt.mp h
  apply roundsTo_of_lt
  · rw [hlow]
    linarith
  · rw [midpoint_eq]
    linarith

/-! ### One grid -/

theorem ten_zpow_pos (e : ℤ) : (0 : ℚ) < 10 ^ e := by positivity

theorem decimal_le_decimal : decimal c e ≤ decimal k e ↔ c ≤ k := by
  rw [decimal, decimal, mul_le_mul_iff_of_pos_right (ten_zpow_pos e), Nat.cast_le]

theorem decimal_lt_decimal : decimal c e < decimal k e ↔ c < k := by
  rw [decimal, decimal, mul_lt_mul_iff_of_pos_right (ten_zpow_pos e), Nat.cast_lt]

/-- The last number of a grid that is not above a double. -/
def floorAt (n : ℕ) (e : ℤ) : ℕ :=
  (around n).num * Nat.pow 10 (-e).toNat / ((around n).den * Nat.pow 10 e.toNat)

theorem floorAt_le (n : ℕ) (e : ℤ) : decimal (floorAt n e) e ≤ magnitude n := by
  rw [← around_num, decimal_le_div_iff around_den_pos, mul_assoc,
    mul_comm (Nat.pow 10 e.toNat) (around n).den]
  exact Nat.div_mul_le_self _ _

theorem lt_floorAt (n : ℕ) (e : ℤ) : magnitude n < decimal (floorAt n e + 1) e := by
  have hden : 0 < (around n).den * Nat.pow 10 e.toNat :=
    Nat.mul_pos around_den_pos (Nat.pow_pos (by decide))
  rw [← around_num, ← not_le, decimal_le_div_iff around_den_pos, not_le, mul_assoc,
    mul_comm (Nat.pow 10 e.toNat) (around n).den, mul_comm (floorAt n e + 1)]
  exact Nat.lt_mul_div_succ _ hden

/-- The numbers below a double on a grid read back only if the last one does. -/
theorem off_of_le_floorAt (hn : 0 < n) (hle : c ≤ floorAt n e)
    (hrounds : RoundsTo (decimal c e) n) :
    RoundsTo (decimal (floorAt n e) e) n ∧ off n (floorAt n e) e ≤ off n c e ∧
      (off n (floorAt n e) e = off n c e → c = floorAt n e) := by
  have hfloor := floorAt_le n e
  have hc : decimal c e ≤ decimal (floorAt n e) e := decimal_le_decimal.mpr hle
  refine ⟨hrounds.between (roundsTo_magnitude hn) hc hfloor, ?_, ?_⟩
  · rw [off, off, abs_of_nonpos (by linarith), abs_of_nonpos (by linarith)]
    linarith
  · intro heq
    rw [off, off, abs_of_nonpos (by linarith), abs_of_nonpos (by linarith)] at heq
    exact le_antisymm hle (decimal_le_decimal.mp (by linarith : decimal _ e ≤ decimal c e))

/-- Those above it read back only if the first one does. -/
theorem off_of_floorAt_lt (hn : 0 < n) (hlt : floorAt n e < c)
    (hrounds : RoundsTo (decimal c e) n) :
    RoundsTo (decimal (floorAt n e + 1) e) n ∧ off n (floorAt n e + 1) e ≤ off n c e ∧
      (off n (floorAt n e + 1) e = off n c e → c = floorAt n e + 1) := by
  have hfloor := lt_floorAt n e
  have hc : decimal (floorAt n e + 1) e ≤ decimal c e := decimal_le_decimal.mpr hlt
  refine ⟨(roundsTo_magnitude hn).between hrounds hfloor.le hc, ?_, ?_⟩
  · rw [off, off, abs_of_nonneg (by linarith), abs_of_nonneg (by linarith)]
    linarith
  · intro heq
    rw [off, off, abs_of_nonneg (by linarith), abs_of_nonneg (by linarith)] at heq
    exact le_antisymm (decimal_le_decimal.mp (by linarith : decimal c e ≤ decimal _ e)) hlt

/-- A number of a grid reads back, none that does is nearer, and it is even if another one is as
near. -/
structure BestOn (n c : ℕ) (e : ℤ) : Prop where
  rounds : RoundsTo (decimal c e) n
  nearest : ∀ c', RoundsTo (decimal c' e) n → off n c e ≤ off n c' e
  even : ∀ c', RoundsTo (decimal c' e) n → off n c e = off n c' e → c' = c ∨ Even c

/-- The two numbers of a grid next to a double, the nearer one first, decide about the grid. -/
theorem bestOn_of_pair (hn : 0 < n) {near far : ℕ}
    (hpair : near = floorAt n e ∧ far = floorAt n e + 1 ∨
      near = floorAt n e + 1 ∧ far = floorAt n e)
    (hle : off n near e ≤ off n far e) (heven : off n near e = off n far e → Even near) :
    (RoundsTo (decimal near e) n → BestOn n near e) ∧
      (¬ RoundsTo (decimal near e) n → RoundsTo (decimal far e) n → BestOn n far e) ∧
      (¬ RoundsTo (decimal near e) n → ¬ RoundsTo (decimal far e) n →
        ∀ c, ¬ RoundsTo (decimal c e) n) := by
  have hside {c : ℕ} (hc : RoundsTo (decimal c e) n) : ∃ s, (s = near ∨ s = far) ∧
      RoundsTo (decimal s e) n ∧ off n s e ≤ off n c e ∧ (off n s e = off n c e → c = s) := by
    rcases Nat.lt_or_ge (floorAt n e) c with hlt | hge
    · refine ⟨floorAt n e + 1, ?_, off_of_floorAt_lt hn hlt hc⟩
      rcases hpair with ⟨-, h⟩ | ⟨h, -⟩
      · exact .inr h.symm
      · exact .inl h.symm
    · refine ⟨floorAt n e, ?_, off_of_le_floorAt hn hge hc⟩
      rcases hpair with ⟨h, -⟩ | ⟨-, h⟩
      · exact .inl h.symm
      · exact .inr h.symm
  refine ⟨?_, ?_, ?_⟩
  · intro hnear
    refine ⟨hnear, ?_, ?_⟩
    · intro c hc
      obtain ⟨s, rfl | rfl, -, hsc, -⟩ := hside hc
      · exact hsc
      · exact hle.trans hsc
    · intro c hc heq
      obtain ⟨s, rfl | rfl, -, hsc, hsame⟩ := hside hc
      · exact .inl (hsame heq)
      · exact .inr (heven (le_antisymm hle (heq ▸ hsc)))
  · intro hnear hfar
    have hfirst {c : ℕ} (hc : RoundsTo (decimal c e) n) :
        off n far e ≤ off n c e ∧ (off n far e = off n c e → c = far) := by
      obtain ⟨s, rfl | rfl, hs, hsc⟩ := hside hc
      · exact absurd hs hnear
      · exact hsc
    refine ⟨hfar, ?_, ?_⟩
    · intro c hc
      exact (hfirst hc).1
    · intro c hc heq
      exact .inl ((hfirst hc).2 heq)
  · intro hnear hfar c hc
    obtain ⟨s, rfl | rfl, hs, -⟩ := hside hc
    · exact hnear hs
    · exact hfar hs

theorem off_floorAt (n : ℕ) (e : ℤ) :
    off n (floorAt n e) e = magnitude n - decimal (floorAt n e) e := by
  rw [off, abs_of_nonpos (sub_nonpos.mpr (floorAt_le n e)), neg_sub]

theorem off_floorAt_succ (n : ℕ) (e : ℤ) :
    off n (floorAt n e + 1) e = decimal (floorAt n e + 1) e - magnitude n :=
  abs_of_pos (sub_pos.mpr (lt_floorAt n e))

theorem decimal_add_succ (c : ℕ) (e : ℤ) :
    decimal c e + decimal (c + 1) e = decimal (2 * c + 1) e := by
  simp only [decimal]
  push_cast
  ring

/-- Twice the remainder tells which of the two numbers next to a double is nearer. -/
theorem off_floorAt_le_iff (n : ℕ) (e : ℤ) :
    let num := (around n).num * Nat.pow 10 (-e).toNat
    let den := (around n).den * Nat.pow 10 e.toNat
    (off n (floorAt n e) e ≤ off n (floorAt n e + 1) e ↔ 2 * (num % den) ≤ den) ∧
      (off n (floorAt n e + 1) e ≤ off n (floorAt n e) e ↔ den ≤ 2 * (num % den)) := by
  intro num den
  have hsplit : den * floorAt n e + num % den = num := Nat.div_add_mod num den
  have hdouble : 2 * magnitude n = ((2 * (around n).num : ℕ) : ℚ) / (around n).den := by
    rw [← around_num, Nat.cast_mul, Nat.cast_ofNat, mul_div_assoc]
  have htwice : 2 * (around n).num * Nat.pow 10 (-e).toNat = 2 * num := Nat.mul_assoc _ _ _
  have hodd : (2 * floorAt n e + 1) * Nat.pow 10 e.toNat * (around n).den =
      2 * (den * floorAt n e) + den := by
    change _ = 2 * ((around n).den * Nat.pow 10 e.toNat * floorAt n e) +
      (around n).den * Nat.pow 10 e.toNat
    ring
  constructor
  · calc off n (floorAt n e) e ≤ off n (floorAt n e + 1) e
        ↔ 2 * magnitude n ≤ decimal (2 * floorAt n e + 1) e := by
          rw [off_floorAt, off_floorAt_succ, ← decimal_add_succ]
          constructor
          · intro h
            linarith
          · intro h
            linarith
      _ ↔ 2 * (num % den) ≤ den := by
          rw [hdouble, div_le_decimal_iff around_den_pos, htwice, hodd]
          omega
  · calc off n (floorAt n e + 1) e ≤ off n (floorAt n e) e
        ↔ decimal (2 * floorAt n e + 1) e ≤ 2 * magnitude n := by
          rw [off_floorAt, off_floorAt_succ, ← decimal_add_succ]
          constructor
          · intro h
            linarith
          · intro h
            linarith
      _ ↔ den ≤ 2 * (num % den) := by
          rw [hdouble, decimal_le_div_iff around_den_pos, htwice, hodd]
          omega

/-- The search on a grid tries the nearer of the two numbers next to a double first. -/
theorem onGrid_pair (n : ℕ) (e : ℤ) : ∃ near far,
    (near = floorAt n e ∧ far = floorAt n e + 1 ∨ near = floorAt n e + 1 ∧ far = floorAt n e) ∧
      off n near e ≤ off n far e ∧ (off n near e = off n far e → Even near) ∧
      (around n).onGrid e =
        if (around n).holds near e then some near
        else if (around n).holds far e then some far else none := by
  obtain ⟨hbelow, habove⟩ := off_floorAt_le_iff n e
  unfold Rounded.onGrid
  dsimp only at hbelow habove ⊢
  rw [← floorAt]
  generalize (around n).num * Nat.pow 10 (-e).toNat % ((around n).den * Nat.pow 10 e.toNat) = rest
    at hbelow habove ⊢
  generalize (around n).den * Nat.pow 10 e.toNat = den at hbelow habove ⊢
  generalize hupper : (if 2 * rest < den then false else if den < 2 * rest then true else
    decide (floorAt n e % 2 = 1)) = upper
  cases upper with
  | false =>
    have hrest : 2 * rest ≤ den ∧ (den ≤ 2 * rest → floorAt n e % 2 = 0) := by
      split at hupper
      · omega
      · split at hupper
        · cases hupper
        · have hparity := of_decide_eq_false hupper
          omega
    refine ⟨_, _, .inl ⟨rfl, rfl⟩, hbelow.mpr hrest.1, ?_, rfl⟩
    intro heq
    exact Nat.even_iff.mpr (hrest.2 (habove.mp heq.ge))
  | true =>
    have hrest : den ≤ 2 * rest ∧ (2 * rest ≤ den → floorAt n e % 2 = 1) := by
      split at hupper
      · cases hupper
      · split at hupper
        · omega
        · have hparity := of_decide_eq_true hupper
          omega
    refine ⟨_, _, .inr ⟨rfl, rfl⟩, habove.mpr hrest.1, ?_, rfl⟩
    intro heq
    have hodd := hrest.2 (hbelow.mp heq.ge)
    exact Nat.even_iff.mpr (by omega)

/-- The search on one grid finds the best number of the grid, if one reads back. -/
theorem onGrid_spec (hn : 0 < n) (e : ℤ) :
    (∀ c, (around n).onGrid e = some c →
      BestOn n c e ∧ (c = floorAt n e ∨ c = floorAt n e + 1)) ∧
    ((around n).onGrid e = none → ∀ c, ¬ RoundsTo (decimal c e) n) := by
  obtain ⟨near, far, hpair, hle, heven, hgrid⟩ := onGrid_pair n e
  obtain ⟨hnear, hfar, hneither⟩ := bestOn_of_pair hn hpair hle heven
  simp only [← around_holds hn _ e] at hnear hfar hneither
  rw [hgrid]
  split_ifs with h h'
  · refine ⟨?_, by simp⟩
    rintro _ ⟨⟩
    exact ⟨hnear h, by omega⟩
  · refine ⟨?_, by simp⟩
    rintro _ ⟨⟩
    exact ⟨hfar h h', by omega⟩
  · simpa only [reduceCtorEq, false_implies, implies_true, true_implies, true_and,
      around_holds hn] using hneither h h'

/-! ### The first digit -/

theorem shift_spec {den fuel num : ℕ} (h : den ≤ num * 10 ^ fuel) :
    den ≤ num * 10 ^ Rounded.shift den fuel num ∧
      ∀ j, Rounded.shift den fuel num = j + 1 → num * 10 ^ j < den := by
  induction fuel generalizing num with
  | zero =>
    refine ⟨h, ?_⟩
    rintro j ⟨⟩
  | succ fuel ih =>
    unfold Rounded.shift
    split
    case isTrue hle =>
      refine ⟨by rwa [pow_zero, mul_one], ?_⟩
      rintro j ⟨⟩
    case isFalse hlt =>
      obtain ⟨hreaches, hfirst⟩ := ih (by rwa [mul_assoc, ← pow_succ'])
      constructor
      · rwa [pow_succ', ← mul_assoc]
      · intro j hj
        obtain rfl : Rounded.shift den fuel (num * 10) = j := Nat.succ.inj hj
        cases hshift : Rounded.shift den fuel (num * 10) with
        | zero => simpa using hlt
        | succ i =>
          rw [pow_succ', ← mul_assoc]
          exact hfirst i hshift

theorem around_num_pos (hn : 0 < n) : 0 < (around n).num := by
  rw [around_eq]
  exact Nat.mul_pos (Nat.mul_pos four_pos (significand_pos hn)) (Nat.pow_pos two_pos)

theorem two_pow_le_ten_pow (k : ℕ) : 2 ^ (3 * k) ≤ 10 ^ k := by
  rw [pow_mul]
  apply Nat.pow_le_pow_left
  decide

theorem around_den_le (n : ℕ) {k : ℕ} (hk : 400 ≤ k) : (around n).den ≤ 10 ^ k := by
  rw [around_eq]
  have hlimit : (-(((max 1 (n / 2 ^ 52) : ℕ) : ℤ) - 1077)).toNat ≤ 3 * k := by omega
  exact (Nat.pow_le_pow_right two_pos hlimit).trans (two_pow_le_ten_pow k)

theorem toDigits_length (x : ℕ) : x < 10 ^ (Nat.toDigits 10 x).length ∧
    ∀ j, (Nat.toDigits 10 x).length = j + 1 → 0 < x → 10 ^ j ≤ x := by
  have hpos : 0 < (Nat.toDigits 10 x).length := Nat.length_toDigits_pos
  constructor
  · exact (Nat.length_toDigits_le_iff (by decide) hpos).mp (le_refl _)
  · intro j hj hx
    cases j with
    | zero => exact hx
    | succ j =>
      rw [← not_lt, ← Nat.length_toDigits_le_iff (by decide) (Nat.succ_pos j), hj]
      omega

/-- The exponent is that of the first digit. -/
theorem exponent_spec (hn : 0 < n) :
    (10 : ℚ) ^ (around n).exponent ≤ magnitude n ∧
      magnitude n < 10 ^ ((around n).exponent + 1) := by
  have hden : (0 : ℚ) < (around n).den := Nat.cast_pos.mpr around_den_pos
  have hnum := around_num_pos hn
  rw [← around_num]
  unfold Rounded.exponent
  split
  case isTrue hle =>
    obtain ⟨hbelow, hfirst⟩ := toDigits_length ((around n).num / (around n).den)
    obtain ⟨j, hj⟩ : ∃ j, (Nat.toDigits 10 ((around n).num / (around n).den)).length = j + 1 :=
      ⟨_, (Nat.sub_add_cancel Nat.length_toDigits_pos).symm⟩
    have hwhole := hfirst j hj (Nat.div_pos hle around_den_pos)
    rw [hj] at hbelow ⊢
    rw [Nat.cast_succ, add_sub_cancel_right, ← Nat.cast_succ, zpow_natCast, zpow_natCast,
      le_div_iff₀ hden, div_lt_iff₀ hden]
    constructor
    · exact_mod_cast (Nat.le_div_iff_mul_le around_den_pos).mp hwhole
    · exact_mod_cast (Nat.div_lt_iff_lt_mul around_den_pos).mp hbelow
  case isFalse hlt =>
    have hfuel : (around n).den ≤ (around n).num * 10 ^ 400 :=
      (around_den_le n (le_refl 400)).trans (Nat.le_mul_of_pos_left _ hnum)
    obtain ⟨hreaches, hfirst⟩ := shift_spec hfuel
    obtain ⟨j, hj⟩ : ∃ j, Rounded.shift (around n).den 400 (around n).num = j + 1 := by
      apply Nat.exists_eq_succ_of_ne_zero
      intro hzero
      rw [hzero, pow_zero, mul_one] at hreaches
      exact hlt hreaches
    have hlast := hfirst j hj
    rw [hj] at hreaches ⊢
    have hsucc : -((j + 1 : ℕ) : ℤ) + 1 = -(j : ℤ) := by
      push_cast
      ring
    rw [hsucc, zpow_neg, zpow_neg, zpow_natCast, zpow_natCast, le_div_iff₀ hden, div_lt_iff₀ hden,
      inv_mul_le_iff₀ (by positivity), lt_inv_mul_iff₀ (by positivity)]
    constructor
    · rw [mul_comm]
      exact_mod_cast hreaches
    · rw [mul_comm]
      exact_mod_cast hlast

/-! ### The search -/

theorem search_spec {r : Rounded} {first : ℤ} {fuel m : ℕ}
    (h : ∃ k, m ≤ k ∧ k < m + fuel ∧ r.onGrid (first + 1 - k) ≠ none) :
    ∃ k c, m ≤ k ∧ r.search first fuel m = (c, first + 1 - k) ∧
      r.onGrid (first + 1 - k) = some c ∧
      ∀ j : ℕ, m ≤ j → j < k → r.onGrid (first + 1 - j) = none := by
  induction fuel generalizing m with
  | zero =>
    obtain ⟨k, hle, hlt, -⟩ := h
    omega
  | succ fuel ih =>
    unfold Rounded.search
    dsimp only
    cases hgrid : r.onGrid (first + 1 - m) with
    | some c =>
      refine ⟨m, c, le_refl m, rfl, hgrid, ?_⟩
      intro j hj hlt
      omega
    | none =>
      obtain ⟨k, hle, hlt, hk⟩ := h
      have hne : k ≠ m := by
        rintro rfl
        exact hk hgrid
      obtain ⟨k', c, hle', hsearch, hc, hnone⟩ := ih (m := m + 1) ⟨k, by omega, by omega, hk⟩
      refine ⟨k', c, by omega, hsearch, hc, ?_⟩
      intro j hj hjk
      obtain rfl | hmore := Nat.eq_or_lt_of_le hj
      · exact hgrid
      · exact hnone j hmore hjk

/-- Seventeen digits are always enough. -/
theorem onGrid_seventeen (hn : 0 < n) :
    (around n).onGrid ((around n).exponent + 1 - (17 : ℕ)) ≠ none := by
  intro hnone
  have hmiss := (onGrid_spec hn _).2 hnone
  have hfirst := (exponent_spec hn).1
  generalize hgrid : (around n).exponent + 1 - ((17 : ℕ) : ℤ) = e at hmiss
  have hstep : (10 : ℚ) ^ (around n).exponent = 10 ^ 16 * 10 ^ e := by
    rw [← zpow_natCast, ← zpow_add₀ (by norm_num), ← hgrid]
    congr 1
    push_cast
    ring
  -- the two numbers around the double are one step apart, so one is within half a step
  have hsucc : decimal (floorAt n e + 1) e = decimal (floorAt n e) e + 10 ^ e := by
    simp only [decimal]
    push_cast
    ring
  obtain ⟨-, hplaces⟩ := ulp_pred hn
  have hpos := ten_zpow_pos e
  have hhalf : 10 ^ e < ulp (n - 1) := by
    have hlarge : (10 : ℚ) ^ 16 * 10 ^ e ≤ 2 ^ 53 * ulp (n - 1) := by
      rw [← hstep]
      exact hfirst.trans hplaces
    norm_num at hlarge
    linarith
  have hbelow : ulp (n - 1) / 2 ≤ off n (floorAt n e) e := by
    rw [← not_lt]
    intro hlt
    exact hmiss _ (roundsTo_of_abs_lt hn hlt)
  have habove : ulp (n - 1) / 2 ≤ off n (floorAt n e + 1) e := by
    rw [← not_lt]
    intro hlt
    exact hmiss _ (roundsTo_of_abs_lt hn hlt)
  rw [off_floorAt] at hbelow
  rw [off_floorAt_succ, hsucc] at habove
  linarith

theorem not_roundsTo_zero (n : ℕ) (e : ℤ) : ¬ RoundsTo (decimal 0 e) n := by
  intro h
  have hpos : 0 < midpoint (n - 1) := by
    have hulp := ulp_pos (n - 1)
    have hmagnitude : 0 ≤ magnitude (n - 1) := mul_nonneg (Nat.cast_nonneg _) hulp.le
    rw [midpoint_eq]
    linarith
  have hle : midpoint (n - 1) ≤ 0 := by
    rw [decimal, Nat.cast_zero, zero_mul] at h
    unfold RoundsTo at h
    split at h
    · exact h.1
    · exact h.1.le
  linarith

theorem decimal_mul_pow (c j : ℕ) (e : ℤ) : decimal (c * 10 ^ j) e = decimal c (e + j) := by
  rw [decimal, decimal, zpow_add₀ (by norm_num), zpow_natCast]
  push_cast
  ring

theorem decimal_ten_pow (j : ℕ) (x : ℤ) : decimal (10 ^ j) (x - j) = 10 ^ x := by
  have hshift := decimal_mul_pow 1 j (x - j)
  rw [one_mul, sub_add_cancel] at hshift
  rw [hshift, decimal, Nat.cast_one, one_mul]

/-- A number of few digits is on the grid for as many, or it lies below all numbers with the first
digit in the place where that of the double is. -/
theorem on_grid_or_below (first e : ℤ) {j : ℕ} (hc : c < 10 ^ (j + 1)) :
    (first - j ≤ e ∧ ∃ c', decimal c' (first - j) = decimal c e) ∨
      decimal c e < decimal (10 ^ j) (first - j) := by
  rcases le_or_gt (first - j) e with hle | hlt
  · refine .inl ⟨hle, c * 10 ^ (e - (first - j)).toNat, ?_⟩
    rw [decimal_mul_pow]
    congr 1
    omega
  · right
    obtain ⟨i, hi⟩ : ∃ i : ℕ, first - j = e + 1 + i := ⟨(first - j - e - 1).toNat, by omega⟩
    have hone : decimal (10 ^ j) (first - j) = decimal (10 ^ (j + 1 + i)) e := by
      rw [hi, add_assoc, add_comm (1 : ℤ), ← Nat.cast_succ, ← decimal_mul_pow, ← pow_add]
      congr 2
      omega
    rw [hone, decimal_lt_decimal]
    exact hc.trans_le (Nat.pow_le_pow_right (by decide) (by omega))

/-- The best number of the first grid that has one, with `j + 1` digits from the first place on. -/
structure Found (n c j : ℕ) : Prop where
  best : BestOn n c ((around n).exponent - j)
  least : 10 ^ j ≤ c
  most : c ≤ 10 ^ (j + 1)
  first : ∀ i < j, ∀ c', ¬ RoundsTo (decimal c' ((around n).exponent - i)) n

theorem search_found (hn : 0 < n) : ∃ c j : ℕ,
    (around n).search (around n).exponent 17 1 = (c, (around n).exponent - j) ∧ Found n c j := by
  have hsome : ∃ k : ℕ, 1 ≤ k ∧ k < 1 + 17 ∧
      (around n).onGrid ((around n).exponent + 1 - k) ≠ none :=
    ⟨17, by decide, by decide, onGrid_seventeen hn⟩
  obtain ⟨k, c, hk, hsearch, hgrid, hnone⟩ := search_spec hsome
  obtain ⟨j, rfl⟩ : ∃ j, k = j + 1 := ⟨k - 1, by omega⟩
  have hplace (i : ℕ) : (around n).exponent + 1 - (i + 1 : ℕ) = (around n).exponent - i := by
    push_cast
    ring
  rw [hplace] at hsearch hgrid
  obtain ⟨hbest, hside⟩ := (onGrid_spec hn _).1 c hgrid
  obtain ⟨hlow, hhigh⟩ := exponent_spec hn
  have hten := decimal_ten_pow (j + 1) ((around n).exponent + 1)
  rw [Nat.cast_succ, add_sub_add_right_eq_sub] at hten
  rw [← decimal_ten_pow j] at hlow
  rw [← hten] at hhigh
  have hleast := decimal_lt_decimal.mp (hlow.trans_lt (lt_floorAt n _))
  have hmost := decimal_lt_decimal.mp ((floorAt_le n _).trans_lt hhigh)
  refine ⟨c, j, hsearch, hbest, by omega, by omega, ?_⟩
  intro i hi c'
  have hmiss := hnone (i + 1) (by omega) (by omega)
  rw [hplace] at hmiss
  exact (onGrid_spec hn _).2 hmiss c'

variable {j : ℕ}

/-- No number of fewer digits reads back, on whatever grid. -/
theorem Found.lt_of_roundsTo (hn : 0 < n) (h : Found n c j) (hrounds : RoundsTo (decimal k e) n)
    {i : ℕ} (hk : k < 10 ^ i) : j < i := by
  by_contra hle
  cases i with
  | zero =>
    obtain rfl : k = 0 := by simpa using hk
    exact not_roundsTo_zero n e hrounds
  | succ i =>
    have hmiss := h.first i (by omega)
    obtain ⟨-, c', hsame⟩ | hbelow := on_grid_or_below (around n).exponent e hk
    · rw [← hsame] at hrounds
      exact hmiss c' hrounds
    · have hlow := (exponent_spec hn).1
      rw [← decimal_ten_pow i] at hlow
      exact hmiss _ (hrounds.between (roundsTo_magnitude hn) hbelow.le hlow)

theorem off_congr {c' : ℕ} {e' : ℤ} (h : decimal c e = decimal c' e') :
    off n c e = off n c' e' := by
  rw [off, off, h]

/-- No number of as few digits is nearer. -/
theorem Found.off_le (hn : 0 < n) (h : Found n c j) (hrounds : RoundsTo (decimal k e) n)
    (hk : k < 10 ^ (j + 1)) :
    off n c ((around n).exponent - j) ≤ off n k e ∧
      (off n c ((around n).exponent - j) = off n k e →
        decimal k e = decimal c ((around n).exponent - j) ∨
          (around n).exponent - j ≤ e ∧ Even c) := by
  obtain ⟨hle, c', hsame⟩ | hbelow := on_grid_or_below (around n).exponent e hk
  · rw [← hsame] at hrounds
    rw [← off_congr hsame]
    refine ⟨h.best.nearest c' hrounds, ?_⟩
    intro heq
    rcases h.best.even c' hrounds heq with rfl | heven
    · exact .inl hsame.symm
    · exact .inr ⟨hle, heven⟩
  · have hlow := (exponent_spec hn).1
    rw [← decimal_ten_pow j] at hlow
    have hfirst := h.best.nearest _ (hrounds.between (roundsTo_magnitude hn) hbelow.le hlow)
    have hlt : off n c ((around n).exponent - j) < off n k e := by
      apply hfirst.trans_lt
      rw [off, off, abs_of_nonpos (by linarith), abs_of_neg (by linarith)]
      linarith
    refine ⟨hlt.le, ?_⟩
    intro heq
    exact absurd heq hlt.ne

theorem Found.shortest (hn : 0 < n) (h : Found n c j) (hlast : c % 10 ≠ 0) :
    Shortest n c ((around n).exponent - j) := by
  have hlt : c < 10 ^ (j + 1) := by
    apply lt_of_le_of_ne h.most
    rintro rfl
    rw [pow_succ, Nat.mul_mod_left] at hlast
    exact hlast rfl
  refine ⟨h.best.rounds, ?_, ?_, ?_⟩
  · intro c' k e' hrounds hk
    exact hlt.trans_le (Nat.pow_le_pow_right (by decide) (h.lt_of_roundsTo hn hrounds hk))
  · intro c' e' hrounds hfew
    exact (h.off_le hn hrounds (hfew _ hlt)).1
  · intro c' e' hrounds hfew heq hne
    rcases (h.off_le hn hrounds (hfew _ hlt)).2 heq with hsame | ⟨-, heven⟩
    · exact absurd hsame hne
    · exact .inr heven

/-- A number whose last digit is zero is the first number with one digit more. -/
theorem Found.eq_ten (h : Found n c j) (hlast : c % 10 = 0) : j = 0 ∧ c = 10 := by
  have hzero : j = 0 := by
    by_contra hpos
    obtain ⟨i, rfl⟩ := Nat.exists_eq_succ_of_ne_zero hpos
    apply h.first i (Nat.lt_succ_self i) (c / 10)
    have hshift := decimal_mul_pow (c / 10) 1 ((around n).exponent - (i + 1 : ℕ))
    rw [pow_one, Nat.div_mul_cancel (Nat.dvd_of_mod_eq_zero hlast)] at hshift
    have hplace : (around n).exponent - (i + 1 : ℕ) + (1 : ℕ) = (around n).exponent - i := by
      push_cast
      ring
    rw [← hplace, ← hshift]
    exact h.best.rounds
  subst hzero
  have hleast := h.least
  have hmost := h.most
  exact ⟨rfl, by omega⟩

theorem Found.shortest_one (hn : 0 < n) (h : Found n 10 0) :
    Shortest n 1 ((around n).exponent + 1) := by
  have hsame : decimal 10 ((around n).exponent - (0 : ℕ)) =
      decimal 1 ((around n).exponent + 1) := by
    have hshift := decimal_mul_pow 1 1 ((around n).exponent - (0 : ℕ))
    rwa [Nat.cast_zero, sub_zero] at hshift ⊢
  have hrounds := h.best.rounds
  rw [hsame] at hrounds
  refine ⟨hrounds, ?_, ?_, ?_⟩
  · intro c' k e' hrounds hk
    exact Nat.one_lt_pow (Nat.pos_iff_ne_zero.mp (h.lt_of_roundsTo hn hrounds hk)) (by decide)
  · intro c' e' hrounds hfew
    rw [← off_congr hsame]
    exact (h.off_le hn hrounds (hfew 1 (by decide))).1
  · intro c' e' hrounds hfew heq hne
    left
    by_contra hge
    -- a number on that grid would lie beyond this one, which lies beyond the double
    have hpos : (1 : ℚ) ≤ c' := by
      rw [Nat.one_le_cast, Nat.one_le_iff_ne_zero]
      rintro rfl
      exact not_roundsTo_zero n e' hrounds
    have hone : decimal 1 ((around n).exponent + 1) = 10 ^ ((around n).exponent + 1) := by
      rw [decimal, Nat.cast_one, one_mul]
    have hbeyond : decimal 1 ((around n).exponent + 1) < decimal c' e' := by
      apply lt_of_le_of_ne _ hne.symm
      calc decimal 1 ((around n).exponent + 1) = 10 ^ ((around n).exponent + 1) := hone
        _ ≤ 10 ^ e' := zpow_le_zpow_right₀ (by norm_num) (not_lt.mp hge)
        _ ≤ decimal c' e' := le_mul_of_one_le_left (ten_zpow_pos e').le hpos
    have hhigh := (exponent_spec hn).2
    rw [← hone] at hhigh
    rw [off, off, abs_of_pos (by linarith), abs_of_pos (by linarith)] at heq
    linarith

theorem toDigits_last (c : ℕ) : ∃ ds, Nat.toDigits 10 c = ds ++ [Nat.digitChar (c % 10)] := by
  rcases Nat.lt_or_ge c 10 with hlt | hge
  · exact ⟨[], by rw [Nat.toDigits_of_lt_base hlt, Nat.mod_eq_of_lt hlt, List.nil_append]⟩
  · exact ⟨_, Nat.toDigits_of_base_le (by decide) hge⟩

theorem trim_toDigits (hlast : c % 10 ≠ 0) : trim (Nat.toDigits 10 c) = Nat.toDigits 10 c := by
  obtain ⟨ds, hds⟩ := toDigits_last c
  have hdigit : ∀ d < 10, d ≠ 0 → (Nat.digitChar d == '0') = false := by decide
  have hnonzero := hdigit (c % 10) (Nat.mod_lt c (by decide)) hlast
  rw [hds, trim, List.reverse_append, List.reverse_singleton, List.singleton_append,
    List.dropWhile_cons_of_neg (by rw [hnonzero]; decide)]
  simp

/-- There are such digits for every double, and they are those that the search gives. -/
theorem digits_spec (hn : 0 < n) : ∃ (c : ℕ) (e : ℤ), Shortest n c e ∧
    (around n).digits = (Nat.toDigits 10 c, e + (Nat.toDigits 10 c).length - 1) := by
  obtain ⟨c, j, hsearch, hfound⟩ := search_found hn
  unfold Rounded.digits
  rw [hsearch]
  dsimp only
  by_cases hlast : c % 10 = 0
  · obtain ⟨rfl, rfl⟩ := hfound.eq_ten hlast
    have hten : trim (Nat.toDigits 10 10) = Nat.toDigits 10 1 := by decide
    have hlength : (Nat.toDigits 10 10).length = 2 := by decide
    have hlength' : (Nat.toDigits 10 1).length = 1 := by decide
    refine ⟨1, _, hfound.shortest_one hn, ?_⟩
    rw [hten, hlength, hlength', Prod.mk.injEq]
    refine ⟨rfl, ?_⟩
    push_cast
    ring
  · exact ⟨c, _, hfound.shortest hn hlast, by rw [trim_toDigits hlast]⟩

/-- The least double, and the one nearest to a tenth. -/
example : (around 1).digits = (['5'], -324) ∧ (around 0x3fb999999999999a).digits = (['1'], -1) := by
  decide +kernel

/-! ### Only one -/

variable {c' : ℕ} {e' : ℤ}

theorem Shortest.pos (h : Shortest n c e) : 0 < c := by
  apply Nat.pos_of_ne_zero
  rintro rfl
  exact not_roundsTo_zero n e h.rounds

theorem Shortest.lt_pow_iff (h : Shortest n c e) (h' : Shortest n c' e') (k : ℕ) :
    c < 10 ^ k ↔ c' < 10 ^ k :=
  ⟨h'.fewest c k e h.rounds, h.fewest c' k e' h'.rounds⟩

theorem Shortest.off_eq (h : Shortest n c e) (h' : Shortest n c' e') : off n c e = off n c' e' := by
  apply le_antisymm
  · exact h.nearest c' e' h'.rounds fun k => (h.lt_pow_iff h' k).mp
  · exact h'.nearest c e h.rounds fun k => (h.lt_pow_iff h' k).mpr

theorem exists_pow_le (hc : 0 < c) : ∃ k, 10 ^ k ≤ c ∧ c < 10 ^ (k + 1) := by
  obtain ⟨hlt, hle⟩ := toDigits_length c
  obtain ⟨k, hk⟩ := Nat.exists_eq_succ_of_ne_zero
    (Nat.pos_iff_ne_zero.mp (Nat.length_toDigits_pos : 0 < (Nat.toDigits 10 c).length))
  rw [hk] at hlt
  exact ⟨k, hle k hk hc, hlt⟩

theorem decimal_pow_succ_le (hk : 10 ^ k ≤ c) (he : e < e') :
    decimal (10 ^ (k + 1)) e ≤ decimal c e' :=
  calc decimal (10 ^ (k + 1)) e = decimal (10 ^ k * 10 ^ 1) e := by rw [← pow_add]
    _ = decimal (10 ^ k) (e + 1) := decimal_mul_pow _ 1 e
    _ ≤ decimal c (e + 1) := decimal_le_decimal.mpr hk
    _ ≤ decimal c e' :=
        mul_le_mul_of_nonneg_left (zpow_le_zpow_right₀ (by norm_num) he) (Nat.cast_nonneg _)

/-- As many digits on a coarser grid mean a greater number. -/
theorem decimal_succ_le (hc : 0 < c') (hdigits : ∀ k, c < 10 ^ k ↔ c' < 10 ^ k) (he : e < e') :
    decimal (c + 1) e ≤ decimal c' e' := by
  obtain ⟨k, hle, hlt⟩ := exists_pow_le hc
  apply (decimal_pow_succ_le hle he).trans'
  exact decimal_le_decimal.mpr ((hdigits _).mpr hlt)

/-- Nothing with as few digits lies between two numbers that are equally near. -/
theorem Shortest.not_between (h : Shortest n c e) (h' : Shortest n c' e') {i : ℤ}
    (hlow : decimal c e < decimal k i) (hhigh : decimal k i < decimal c' e')
    (hfew : ∀ m, c < 10 ^ m → k < 10 ^ m) : False := by
  have hnear := h.nearest k i (h.rounds.between h'.rounds hlow.le hhigh.le) hfew
  have hmiddle : decimal c e - magnitude n = -(decimal c' e' - magnitude n) := by
    rcases abs_eq_abs.mp (h.off_eq h') with heq | heq
    · linarith
    · exact heq
  have hlt : off n k i < off n c e := by
    rw [off, off, abs_of_neg (by linarith : decimal c e - magnitude n < 0)]
    exact abs_lt.mpr ⟨by linarith, by linarith⟩
  exact absurd hnear (not_le.mpr hlt)

theorem Shortest.decimal_le (h : Shortest n c e) (h' : Shortest n c' e') :
    decimal c' e' ≤ decimal c e := by
  by_contra hnot
  have hlt := not_le.mp hnot
  have hdigits := h.lt_pow_iff h'
  have hoff := h.off_eq h'
  have heven := h.even c' e' h'.rounds (fun k => (hdigits k).mp) hoff hlt.ne'
  have heven' := h'.even c e h.rounds (fun k => (hdigits k).mpr) hoff.symm hlt.ne
  have hsucc : decimal c e < decimal (c + 1) e := decimal_lt_decimal.mpr (Nat.lt_succ_self c)
  -- in each case the successor of the smaller number lies between the two
  rcases lt_trichotomy e e' with he | rfl | he
  · obtain ⟨m, hm⟩ := heven.resolve_left he.not_gt
    obtain ⟨k, hle, hbelow⟩ := exists_pow_le h.pos
    obtain ⟨i, hi⟩ : Even (10 ^ (k + 1)) := by
      rw [Nat.even_pow]
      exact ⟨by decide, Nat.succ_ne_zero k⟩
    have hfew : c + 1 < 10 ^ (k + 1) := by omega
    have hle' : 10 ^ k ≤ c' := not_lt.mp fun hlt => absurd ((hdigits k).mpr hlt) (not_lt.mpr hle)
    apply h.not_between h' hsucc
    · exact (decimal_lt_decimal.mpr hfew).trans_le (decimal_pow_succ_le hle' he)
    · intro m hm
      have hpow : k + 1 ≤ m := (Nat.pow_lt_pow_iff_right (by decide)).mp (hle.trans_lt hm)
      exact hfew.trans_le (Nat.pow_le_pow_right (by decide) hpow)
  · obtain ⟨m, hm⟩ := heven.resolve_left (lt_irrefl e)
    obtain ⟨m', hm'⟩ := heven'.resolve_left (lt_irrefl e)
    have hcc := decimal_lt_decimal.mp hlt
    have hnext : c + 1 < c' := by omega
    apply h.not_between h' hsucc (decimal_lt_decimal.mpr hnext)
    intro k hk
    exact hnext.trans ((hdigits k).mp hk)
  · have hle := decimal_succ_le h.pos (fun k => (hdigits k).symm) he
    have hlt' : decimal c' e' < decimal (c' + 1) e' := decimal_lt_decimal.mpr (Nat.lt_succ_self c')
    linarith

theorem Shortest.unique (h : Shortest n c e) (h' : Shortest n c' e') : c = c' ∧ e = e' := by
  have hsame := le_antisymm (h'.decimal_le h) (h.decimal_le h')
  have hdigits := h.lt_pow_iff h'
  rcases lt_trichotomy e e' with he | rfl | he
  · have hle := decimal_succ_le h'.pos hdigits he
    rw [← hsame] at hle
    exact absurd (decimal_le_decimal.mp hle) (Nat.not_succ_le_self c)
  · refine ⟨le_antisymm ?_ ?_, rfl⟩
    · exact decimal_le_decimal.mp hsame.le
    · exact decimal_le_decimal.mp hsame.ge
  · have hle := decimal_succ_le h.pos (fun k => (hdigits k).symm) he
    rw [hsame] at hle
    exact absurd (decimal_le_decimal.mp hle) (Nat.not_succ_le_self c')

end GzipStage.Decimal
