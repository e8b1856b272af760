import GzipStage.Proofs.Decimal.Shortest

/-! The text of a double as a relation on its bits. -/
namespace GzipStage.Decimal

def exponentText (x : ℤ) : List Char := (if x < 0 then '-' else '+') :: (toString x.natAbs).toList

/-- Digits as the text of a number whose first digit counts `10 ^ x`.  From `0.00001` up to
`10 ^ 16` there is a point with a digit on either side of it, and no exponent. -/
inductive Placed : List Char → ℤ → List Char → Prop
  | small {ds : List Char} {zeros : ℕ} (hzeros : zeros < 5) :
      Placed ds (-(zeros + 1 : ℕ)) ("0.".toList ++ List.replicate zeros '0' ++ ds)
  | whole {ds : List Char} {x : ℕ} (hx : x < 16) (hds : ds.length ≤ x + 1) :
      Placed ds x (ds ++ List.replicate (x + 1 - ds.length) '0' ++ ".0".toList)
  | mixed {whole fraction : List Char} {x : ℕ} (hx : x < 16) (hwhole : whole.length = x + 1)
      (hfraction : fraction ≠ []) : Placed (whole ++ fraction) x (whole ++ '.' :: fraction)
  | power {d : Char} {x : ℤ} (hx : x < -5 ∨ 16 ≤ x) : Placed [d] x (d :: 'e' :: exponentText x)
  | scientific {d : Char} {ds : List Char} {x : ℤ} (hx : x < -5 ∨ 16 ≤ x) (hds : ds ≠ []) :
      Placed (d :: ds) x (d :: '.' :: ds ++ 'e' :: exponentText x)

def signOf (bits : ℕ) : List Char := if 2 ^ 63 ≤ bits then ['-'] else []

/-- The text of the double with these 64 bits. -/
inductive Written (bits : ℕ) : List Char → Prop
  | zero (h : bits % 2 ^ 63 = 0) : Written bits (signOf bits ++ "0.0".toList)
  | digits {c : ℕ} {e : ℤ} {text : List Char} (h : 0 < bits % 2 ^ 63)
      (hshortest : Shortest (bits % 2 ^ 63) c e)
      (htext : Placed (toString c).toList (e + (toString c).length - 1) text) :
      Written bits (signOf bits ++ text)

theorem toString_toList (c : ℕ) : (toString c).toList = Nat.toDigits 10 c :=
  String.toList_ofList

theorem exponentText_eq (x : ℤ) :
    exponentText x = (if x < 0 then '-' else '+') :: Nat.toDigits 10 x.natAbs := by
  rw [exponentText, toString_toList]

theorem placed_write {ds : List Char} (hds : ds ≠ []) (x : ℤ) :
    Placed ds x (documentLayout.write ds x) := by
  unfold Layout.write documentLayout
  dsimp only
  split
  case isTrue hrange =>
    obtain ⟨hleast, hlimit⟩ : -5 ≤ x ∧ x < 16 := by simpa using hrange
    split
    case isTrue hneg =>
      obtain ⟨zeros, rfl⟩ : ∃ zeros : ℕ, x = -(zeros + 1 : ℕ) := ⟨(-x - 1).toNat, by omega⟩
      have hzeros : (-(-((zeros + 1 : ℕ) : ℤ)) - 1).toNat = zeros := by omega
      rw [hzeros]
      exact .small (by omega)
    case isFalse hpos =>
      obtain ⟨x, rfl⟩ := Int.eq_ofNat_of_zero_le (not_lt.mp hpos)
      have hx : x < 16 := by omega
      rw [Int.toNat_natCast]
      split
      case isTrue hlength => exact .whole hx hlength
      case isFalse hlength =>
        have hplaced : Placed (ds.take (x + 1) ++ ds.drop (x + 1)) x
            (ds.take (x + 1) ++ '.' :: ds.drop (x + 1)) := by
          apply Placed.mixed hx
          · rw [List.length_take]
            omega
          · intro hnil
            exact hlength (List.drop_eq_nil_iff.mp hnil)
        rw [List.take_append_drop] at hplaced
        rwa [List.append_assoc, List.singleton_append]
  case isFalse hrange =>
    have hx : x < -5 ∨ 16 ≤ x := by
      by_contra hnot
      apply hrange
      simp
      omega
    match ds, hds with
    | [d], _ => simpa [exponentText_eq] using Placed.power hx
    | d :: d' :: ds, _ =>
      simpa [exponentText_eq] using Placed.scientific hx (List.cons_ne_nil d' ds)

theorem Placed.eq_write {ds text : List Char} {x : ℤ} (h : Placed ds x text) :
    text = documentLayout.write ds x := by
  unfold Layout.write documentLayout
  dsimp only
  cases h with
  | @small ds zeros hzeros =>
    have hcount : (-(-((zeros + 1 : ℕ) : ℤ)) - 1).toNat = zeros := by omega
    rw [if_pos (by simp; omega), if_pos (by omega), hcount]
    rfl
  | @whole ds x hx hds =>
    rw [if_pos (by simp; omega), if_neg (by omega), Int.toNat_natCast, if_pos hds]
    rfl
  | @mixed whole fraction x hx hwhole hfraction =>
    have hlong : ¬ (whole ++ fraction).length ≤ x + 1 := by
      have hpos := List.length_pos_iff.mpr hfraction
      rw [List.length_append]
      omega
    rw [if_pos (by simp; omega), if_neg (by omega), Int.toNat_natCast, if_neg hlong, ← hwhole,
      List.take_left, List.drop_left]
    simp
  | @power d x hx =>
    rw [if_neg (by simp; omega)]
    simp [exponentText_eq]
  | @scientific d ds x hx hds =>
    have hpos := List.length_pos_iff.mpr hds
    rw [if_neg (by simp; omega), if_neg (by simp; omega)]
    simp [exponentText_eq]

theorem signOf_eq {bits : ℕ} (hbits : bits < 2 ^ 64) :
    signOf bits = if bits.testBit 63 then ['-'] else [] := by
  have hbit : bits.testBit 63 = decide (2 ^ 63 ≤ bits) := by
    rw [Nat.testBit_eq_decide_div_mod_eq, decide_eq_decide]
    omega
  unfold signOf
  rw [hbit]
  simp only [decide_eq_true_eq]

theorem render_eq (x : Float) : render x =
    signOf x.toBits.toNat ++
      if x.toBits.toNat % 2 ^ 63 = 0 then "0.0".toList
      else documentLayout.write (around (x.toBits.toNat % 2 ^ 63)).digits.1
        (around (x.toBits.toNat % 2 ^ 63)).digits.2 := by
  rw [signOf_eq x.toBits.toNat_lt]
  unfold render around
  dsimp only
  generalize x.toBits.toNat = bits
  have hbiased : bits / leastNormal % 2048 = bits % 2 ^ 63 / 2 ^ 52 := by
    unfold leastNormal
    omega
  have hfraction : bits % leastNormal = bits % 2 ^ 63 % 2 ^ 52 := by
    unfold leastNormal
    omega
  have hzero : (decide (bits % 2 ^ 63 / 2 ^ 52 = 0) && decide (bits % 2 ^ 63 % 2 ^ 52 = 0)) = true ↔
      bits % 2 ^ 63 = 0 := by
    rw [Bool.and_eq_true, decide_eq_true_eq, decide_eq_true_eq]
    omega
  rw [hbiased, hfraction]
  simp only [hzero]
  split
  · rfl
  · rfl

theorem written_render (x : Float) : Written x.toBits.toNat (render x) := by
  rw [render_eq]
  split
  case isTrue hzero => exact .zero hzero
  case isFalse hzero =>
    have hpos := Nat.pos_of_ne_zero hzero
    obtain ⟨c, e, hshortest, hdigits⟩ := digits_spec hpos
    rw [hdigits]
    apply Written.digits hpos hshortest
    have hlength : (toString c).length = (Nat.toDigits 10 c).length := by
      rw [← String.length_toList, toString_toList]
    rw [toString_toList, hlength]
    exact placed_write (Nat.toDigits_ne_nil) _

theorem Written.eq_render {x : Float} {text : List Char} (h : Written x.toBits.toNat text) :
    text = render x := by
  rw [render_eq]
  cases h with
  | zero hzero => rw [if_pos hzero]
  | @digits c e text hpos hshortest htext =>
    obtain ⟨c', e', hshortest', hdigits⟩ := digits_spec hpos
    obtain ⟨rfl, rfl⟩ := hshortest.unique hshortest'
    have hlength : (toString c).length = (Nat.toDigits 10 c).length := by
      rw [← String.length_toList, toString_toList]
    rw [toString_toList, hlength] at htext
    rw [if_neg hpos.ne', hdigits, htext.eq_write]

end GzipStage.Decimal
