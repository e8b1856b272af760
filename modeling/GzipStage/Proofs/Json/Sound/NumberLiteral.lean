import GzipStage.Proofs.Json.NumberLiteral
import GzipStage.Proofs.Steps
import Mathlib.Data.List.TakeWhile

/-! What is read as a number is written as one, and what follows it does not matter. -/
namespace GzipStage.Json

variable {s rest t : Bytes} {negative : Bool} {n : Number}

namespace NumberLiteral

theorem dropDigits_of_digitNext_eq_false (h : digitNext s = false) : dropDigits s = s :=
  dropDigits_append (s := []) (List.forall_mem_nil _) h

/-! ### Where a number ends -/

/-- The digits that do not fit are those that `dropDigits` drops after `takeDigits`. -/
theorem dropDigits_takeDigits (limit n count : Nat) (s : Bytes) :
    dropDigits (takeDigits limit n count s).2.2 = dropDigits s := by
  induction s generalizing n count with
  | nil => rfl
  | cons b s ih =>
    simp only [takeDigits]
    split
    · next htake =>
      simp only [Bool.and_eq_true] at htake
      rw [ih, dropDigits, dropDigits, List.dropWhile_cons_of_pos htake.1]
    · rfl

theorem takeDigits_of_digitNext_eq_false (limit n count : Nat) (h : digitNext s = false) :
    takeDigits limit n count s = (n, count, s) := by
  cases s with
  | nil => rfl
  | cons b s =>
    have hb : Octet.isDigit b = false := h
    simp [takeDigits, hb]

theorem eq_of_float_ok {significand : Nat} {e : Int}
    (h : float negative significand e s = .ok (n, rest)) : s = rest := by
  unfold float at h
  split at h <;> cases h
  rfl

theorem skip_exponent {significand : Nat} {e : Int}
    (h : exponent negative significand e s = .ok (n, rest)) : Skip.exponent s = .ok rest := by
  unfold exponent at h
  rw [Skip.exponent]
  cases htail : (exponentSign s).2 with
  | nil => simp [htail] at h
  | cons b s₁ =>
    simp only [htail] at h ⊢
    split at h
    · next hb =>
      rw [if_pos hb, ← dropDigits_takeDigits exponentLimit (Octet.digitValue b) 0]
      split at h
      · split at h
        · cases h
        · cases h
          rfl
      · next hmore =>
        rw [dropDigits_of_digitNext_eq_false (eq_false_of_ne_true hmore), eq_of_float_ok h]
    · cases h

theorem skip_fraction {significand : Nat} {e : Int}
    (h : fraction negative significand e s = .ok (n, rest)) :
    digitNext s = true ∧
      (if exponentNext (dropDigits s) then Skip.exponent ((dropDigits s).drop 1)
        else .ok (dropDigits s)) = .ok rest := by
  unfold fraction at h
  rw [← dropDigits_takeDigits wordLimit significand 0 s]
  simp only [Bool.and_eq_true, decide_eq_true_eq, Bool.not_eq_true'] at h
  have hdigit (hsome : ¬ ((takeDigits wordLimit significand 0 s).2.1 = 0 ∧
      digitNext (takeDigits wordLimit significand 0 s).2.2 = false)) : digitNext s = true := by
    by_contra hdigit
    rw [takeDigits_of_digitNext_eq_false _ _ _ (eq_false_of_ne_true hdigit)] at hsome
    exact hsome ⟨rfl, eq_false_of_ne_true hdigit⟩
  split_ifs at h with hnone hexponent
  · refine ⟨hdigit hnone, ?_⟩
    rw [if_pos hexponent]
    exact skip_exponent h
  · refine ⟨hdigit hnone, ?_⟩
    rw [if_neg hexponent, eq_of_float_ok h]

theorem skip_afterInteger {m dropped : Nat}
    (h : afterInteger negative m dropped s = .ok (n, rest)) : Skip.afterInteger s = .ok rest := by
  rw [afterInteger] at h
  rw [Skip.afterInteger]
  split_ifs at h ⊢ with hdot hexponent hdropped
  · obtain ⟨hdigit, hmore⟩ := skip_fraction h
    simp only [hdigit, Bool.not_true, Bool.false_eq_true, if_false]
    exact hmore
  · exact skip_exponent h
  · cases h
    rfl
  · rw [eq_of_float_ok h]

theorem skip_number (h : read negative s = .ok (n, rest)) : Skip.number s = .ok rest := by
  cases s with
  | nil => cases h
  | cons b s =>
    rw [read] at h
    rw [Skip.number]
    split_ifs at h ⊢
    · exact skip_afterInteger h
    · rw [← dropDigits_takeDigits wordLimit (Octet.digitValue b) 0]
      exact skip_afterInteger h

/-! ### What follows a number -/

theorem digitNext_behind (ht : Stops t) : digitNext (s ++ t) = digitNext s := by
  cases s with
  | nil => exact digitNext_of_stops ht
  | cons b s => rfl

theorem exponentNext_behind (ht : Stops t) : exponentNext (s ++ t) = exponentNext s := by
  cases s with
  | nil => exact exponentNext_of_stops ht
  | cons b s => rfl

theorem dropDigits_behind (ht : Stops t) : dropDigits (s ++ t) = dropDigits s ++ t := by
  induction s with
  | nil => exact dropDigits_of_digitNext_eq_false (digitNext_of_stops ht)
  | cons b s ih =>
    simp only [dropDigits, List.cons_append, List.dropWhile_cons] at ih ⊢
    split
    · exact ih
    · rfl

theorem countDigits_behind (ht : Stops t) : countDigits (s ++ t) = countDigits s := by
  induction s with
  | nil =>
    cases t with
    | nil => rfl
    | cons b t =>
      have hb : Octet.isDigit b = false := digitNext_of_stops ht
      simp [countDigits, hb]
  | cons b s ih =>
    simp only [countDigits, List.cons_append, List.takeWhile_cons] at ih ⊢
    split
    · rw [List.length_cons, List.length_cons, ih]
    · rfl

theorem takeDigits_behind (limit n count : Nat) (ht : Stops t) :
    takeDigits limit n count (s ++ t) =
      ((takeDigits limit n count s).1, (takeDigits limit n count s).2.1,
        (takeDigits limit n count s).2.2 ++ t) := by
  induction s generalizing n count with
  | nil => exact takeDigits_of_digitNext_eq_false _ _ _ (digitNext_of_stops ht)
  | cons b s ih =>
    simp only [List.cons_append, takeDigits]
    split
    · exact ih _ _
    · rfl

theorem exponentSign_behind (ht : Stops t) :
    exponentSign (s ++ t) = ((exponentSign s).1, (exponentSign s).2 ++ t) := by
  cases s with
  | nil =>
    cases t with
    | nil => rfl
    | cons b t =>
      have hb : b ∈ delimiters := ht b rfl
      have hsign : b ≠ Octet.plus ∧ b ≠ Octet.minus := by
        simp only [delimiters, List.mem_cons, List.not_mem_nil, or_false] at hb
        rcases hb with rfl | rfl | rfl | rfl | rfl | rfl | rfl <;> decide
      simp [exponentSign, hsign]
  | cons b s =>
    simp only [List.cons_append, exponentSign]
    split_ifs <;> rfl

/-- The result of a reader of numbers when `t` follows what is left. -/
def behind (t : Bytes) (result : Except Fault (Number × Bytes)) : Option (Number × Bytes) :=
  result.toOption.map fun found => (found.1, found.2 ++ t)

theorem float_behind (significand : Nat) (e : Int) :
    (float negative significand e (s ++ t)).toOption =
      behind t (float negative significand e s) := by
  unfold float
  cases Decimal.toFloat? significand e <;> rfl

theorem exponent_behind (significand : Nat) (e : Int) (ht : Stops t) :
    (exponent negative significand e (s ++ t)).toOption =
      behind t (exponent negative significand e s) := by
  unfold exponent
  rw [exponentSign_behind ht]
  obtain ⟨down, s⟩ := exponentSign s
  cases s with
  | nil =>
    cases t with
    | nil => rfl
    | cons b t =>
      have hb : Octet.isDigit b = false := digitNext_of_stops ht
      simp [hb, behind, Except.toOption]
  | cons b s =>
    simp only [List.cons_append, takeDigits_behind _ _ _ ht, digitNext_behind ht,
      dropDigits_behind ht]
    split_ifs
    all_goals first | rfl | exact float_behind _ _

theorem drop_one_append (h : s ≠ []) : (s ++ t).drop 1 = s.drop 1 ++ t := by
  cases s with
  | nil => exact absurd rfl h
  | cons b s => rfl

theorem ne_nil_of_exponentNext (h : exponentNext s = true) : s ≠ [] := by
  rintro rfl
  cases h

theorem fraction_behind (significand : Nat) (e : Int) (ht : Stops t) :
    (fraction negative significand e (s ++ t)).toOption =
      behind t (fraction negative significand e s) := by
  unfold fraction
  simp only [takeDigits_behind _ _ _ ht, digitNext_behind ht, dropDigits_behind ht,
    exponentNext_behind ht]
  split
  · rfl
  · split
    · next hexponent =>
      rw [drop_one_append (ne_nil_of_exponentNext hexponent)]
      exact exponent_behind _ _ ht
    · exact float_behind _ _

theorem afterInteger_behind (m dropped : Nat) (ht : Stops t) :
    (afterInteger negative m dropped (s ++ t)).toOption =
      behind t (afterInteger negative m dropped s) := by
  have hhead : (s ++ t).head? = some Octet.dot ↔ s.head? = some Octet.dot := by
    cases s with
    | nil => exact ⟨fun h => absurd h (head?_ne_dot_of_stops ht), nofun⟩
    | cons b s => rfl
  unfold afterInteger
  simp only [hhead, exponentNext_behind ht]
  split_ifs with hdot hexponent
  · have hne : s ≠ [] := by
      rintro rfl
      cases hdot
    rw [drop_one_append hne]
    exact fraction_behind _ _ ht
  · rw [drop_one_append (ne_nil_of_exponentNext hexponent)]
    exact exponent_behind _ _ ht
  · rfl
  · exact float_behind _ _

theorem read_behind (ht : Stops t) :
    (read negative (s ++ t)).toOption = behind t (read negative s) := by
  cases s with
  | nil =>
    cases t with
    | nil => rfl
    | cons b t =>
      have hb : Octet.isDigit b = false := digitNext_of_stops ht
      have hzero : b ≠ Octet.zero := by
        rintro rfl
        cases hb
      simp [read, hb, hzero, behind, Except.toOption]
  | cons b s =>
    simp only [List.cons_append, read, digitNext_behind ht, takeDigits_behind _ _ _ ht,
      countDigits_behind ht, dropDigits_behind ht]
    split_ifs
    all_goals first | rfl | exact afterInteger_behind _ _ ht

theorem read_of_read_append {t' : Bytes} (ht : Stops t) (ht' : Stops t')
    (h : read negative (s ++ t) = .ok (n, t)) : read negative (s ++ t') = .ok (n, t') := by
  have hs : (read negative (s ++ t)).toOption = behind t (read negative s) := read_behind ht
  have hs' : (read negative (s ++ t')).toOption = behind t' (read negative s) := read_behind ht'
  rw [h] at hs
  apply eq_ok_of_toOption
  rw [hs']
  cases hread : read negative s with
  | error fault => simp [hread, behind, Except.toOption] at hs
  | ok found =>
    obtain ⟨m, left⟩ := found
    simp only [hread, behind, Except.toOption, Option.map_some, Option.some.injEq, Prod.mk.injEq,
      List.self_eq_append_left] at hs ⊢
    simp [hs]

end NumberLiteral

/-! ### Numbers that are passed over -/

namespace Skip

open NumberLiteral

theorem digits_dropDigits (h : digitNext s = true) :
    ∃ digits, Digits digits ∧ s = digits ++ dropDigits s := by
  refine ⟨s.takeWhile Octet.isDigit, ⟨?_, fun b hb => List.mem_takeWhile_imp hb⟩, ?_⟩
  · cases s with
    | nil => cases h
    | cons b s =>
      have hb : Octet.isDigit b = true := h
      rw [List.takeWhile_cons_of_pos hb]
      exact List.cons_ne_nil _ _
  · exact List.takeWhile_append_dropWhile.symm

theorem exponent_sound (h : Skip.exponent s = .ok rest) :
    ∃ sign digits, sign ∈ [[], [Octet.plus], [Octet.minus]] ∧ Digits digits ∧
      s = sign ++ digits ++ rest := by
  have hsign : ∃ sign ∈ [[], [Octet.plus], [Octet.minus]], s = sign ++ (exponentSign s).2 := by
    cases s with
    | nil => exact ⟨[], by simp, rfl⟩
    | cons b s =>
      simp only [exponentSign]
      split_ifs with hplus hminus
      · exact ⟨[Octet.plus], by simp, by rw [hplus]; rfl⟩
      · exact ⟨[Octet.minus], by simp, by rw [hminus]; rfl⟩
      · exact ⟨[], by simp, rfl⟩
  obtain ⟨sign, hmem, hs⟩ := hsign
  rw [Skip.exponent] at h
  cases htail : (exponentSign s).2 with
  | nil => simp [htail] at h
  | cons b s₁ =>
    simp only [htail] at h
    split_ifs at h with hb
    cases h
    obtain ⟨digits, hdigits, hsplit⟩ := digits_dropDigits (s := b :: s₁) hb
    have hdrop : dropDigits (b :: s₁) = dropDigits s₁ := List.dropWhile_cons_of_pos hb
    refine ⟨sign, digits, hmem, hdigits, ?_⟩
    rw [List.append_assoc, ← hdrop, ← hsplit, ← htail]
    exact hs

theorem exponentOr_sound
    (h : (if exponentNext s then Skip.exponent (s.drop 1) else .ok s) = .ok rest) :
    ∃ exponent, Exponent exponent ∧ s = exponent ++ rest := by
  split at h
  · next hnext =>
    cases s with
    | nil => cases hnext
    | cons b s =>
      obtain ⟨sign, digits, hsign, hdigits, hs⟩ := exponent_sound h
      refine ⟨b :: (sign ++ digits), .inr ⟨b, sign, digits, ?_, hsign, hdigits, rfl⟩, ?_⟩
      · simpa [exponentNext] using hnext
      · exact congrArg (b :: ·) hs
  · cases h
    exact ⟨[], .inl rfl, rfl⟩

theorem afterInteger_sound (h : afterInteger s = .ok rest) :
    ∃ fraction exponent, Fraction fraction ∧ Exponent exponent ∧
      s = fraction ++ (exponent ++ rest) := by
  rw [afterInteger] at h
  split at h
  · next hdot =>
    cases s with
    | nil => cases hdot
    | cons b s =>
      obtain rfl : b = Octet.dot := Option.some.inj hdot
      simp only [List.drop_succ_cons, List.drop_zero, Bool.not_eq_true'] at h
      split at h
      · cases h
      · next hdigit =>
        obtain ⟨digits, hdigits, hs⟩ := digits_dropDigits (eq_true_of_ne_false hdigit)
        obtain ⟨exponent, hexponent, hrest⟩ := exponentOr_sound h
        refine ⟨Octet.dot :: digits, exponent, .inr ⟨digits, hdigits, rfl⟩, hexponent, ?_⟩
        rw [List.cons_append, ← hrest, ← hs]
  · obtain ⟨exponent, hexponent, hrest⟩ := exponentOr_sound h
    exact ⟨[], exponent, .inl rfl, hexponent, hrest⟩

theorem number_sound (h : number s = .ok rest) :
    ∃ text, NumberText text ∧ NumberText (Octet.minus :: text) ∧ s = text ++ rest := by
  have hsigned {whole fraction exponent : Bytes} (hwhole : Whole whole)
      (hfraction : Fraction fraction) (hexponent : Exponent exponent) :
      NumberText (whole ++ (fraction ++ exponent)) ∧
        NumberText (Octet.minus :: (whole ++ (fraction ++ exponent))) :=
    ⟨⟨[], _, _, _, by simp, hwhole, hfraction, hexponent, rfl⟩,
      ⟨[Octet.minus], _, _, _, by simp, hwhole, hfraction, hexponent, rfl⟩⟩
  cases s with
  | nil => cases h
  | cons b s =>
    rw [number] at h
    split at h
    · next hzero =>
      split at h
      · cases h
      · obtain ⟨fraction, exponent, hfraction, hexponent, rfl⟩ := afterInteger_sound h
        have hwhole : Whole [Octet.zero] :=
          ⟨⟨List.cons_ne_nil _ _, List.forall_mem_singleton.mpr rfl⟩, fun _ => rfl⟩
        obtain ⟨htext, htext'⟩ := hsigned hwhole hfraction hexponent
        exact ⟨_, htext, htext', by simp [hzero]⟩
    · next hzero =>
      split at h
      · next hb =>
        obtain ⟨fraction, exponent, hfraction, hexponent, hrest⟩ := afterInteger_sound h
        have hwhole : Whole (b :: s.takeWhile Octet.isDigit) := by
          refine ⟨⟨List.cons_ne_nil _ _, List.forall_mem_cons.mpr ⟨hb, ?_⟩⟩, ?_⟩
          · exact fun d hd => List.mem_takeWhile_imp hd
          · exact fun hhead => absurd (Option.some.inj hhead) hzero
        obtain ⟨htext, htext'⟩ := hsigned hwhole hfraction hexponent
        refine ⟨_, htext, htext', ?_⟩
        rw [List.append_assoc, List.append_assoc, ← hrest, dropDigits, List.cons_append,
          List.takeWhile_append_dropWhile]
      · cases h

end Skip

end GzipStage.Json
