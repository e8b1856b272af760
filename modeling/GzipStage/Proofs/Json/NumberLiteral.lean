import GzipStage.Json.Skip
import GzipStage.Proofs.Json.Grammar
import Mathlib.Tactic.IntervalCases

/-! Number literals are read back. -/
namespace GzipStage.Json

def delimiters : List UInt8 :=
  [Octet.space, Octet.tab, Octet.lineFeed, Octet.carriageReturn, Octet.comma, Octet.closeBracket,
    Octet.closeBrace]

def Stops (rest : Bytes) : Prop := ∀ b ∈ rest.head?, b ∈ delimiters

theorem not_number_of_mem_delimiters (b : UInt8) (hb : b ∈ delimiters) :
    Octet.isDigit b = false ∧ b ≠ Octet.dot ∧ NumberLiteral.exponentNext [b] = false := by
  simp only [delimiters, List.mem_cons, List.not_mem_nil, or_false] at hb
  rcases hb with rfl | rfl | rfl | rfl | rfl | rfl | rfl <;> decide

namespace NumberLiteral

variable {s rest : Bytes}

theorem digitNext_of_stops (h : Stops rest) : digitNext rest = false := by
  cases rest with
  | nil => rfl
  | cons b rest => exact (not_number_of_mem_delimiters b (h b rfl)).1

theorem exponentNext_of_stops (h : Stops rest) : exponentNext rest = false := by
  cases rest with
  | nil => rfl
  | cons b rest => exact (not_number_of_mem_delimiters b (h b rfl)).2.2

theorem head?_ne_dot_of_stops (h : Stops rest) : rest.head? ≠ some Octet.dot :=
  fun hdot => (not_number_of_mem_delimiters _ (h _ hdot)).2.1 rfl

theorem dropDigits_append (hs : ∀ b ∈ s, Octet.isDigit b = true) (hrest : digitNext rest = false) :
    dropDigits (s ++ rest) = rest := by
  rw [dropDigits, List.dropWhile_append_of_pos hs]
  cases rest with
  | nil => rfl
  | cons b rest =>
    have hb : Octet.isDigit b = false := hrest
    rw [List.dropWhile_cons_of_neg (ne_true_of_eq_false hb)]

/-! ### Integers -/

def digitsValue (n : Nat) (s : Bytes) : Nat := s.foldl (fun n b => n * 10 + Octet.digitValue b) n

theorem le_digitsValue (n : Nat) (s : Bytes) : n ≤ digitsValue n s := by
  induction s generalizing n with
  | nil => exact Nat.le_refl n
  | cons b s ih => exact Nat.le_trans (by omega) (ih (n * 10 + Octet.digitValue b))

/-- Digits are taken to their end when their number is below the limit. -/
theorem takeDigits_append {limit n count : Nat} (hs : ∀ b ∈ s, Octet.isDigit b = true)
    (hlimit : digitsValue n s < limit) (hrest : digitNext rest = false) :
    takeDigits limit n count (s ++ rest) = (digitsValue n s, count + s.length, rest) := by
  induction s generalizing n count with
  | nil =>
    cases rest with
    | nil => rfl
    | cons b rest =>
      have hb : Octet.isDigit b = false := hrest
      simp [takeDigits, hb, digitsValue]
  | cons b s ih =>
    have hb := hs b List.mem_cons_self
    have hbelow : n * 10 + Octet.digitValue b < limit :=
      Nat.lt_of_le_of_lt (le_digitsValue _ s) hlimit
    rw [List.cons_append, takeDigits]
    simp only [hb, hbelow, decide_true, Bool.and_self, if_true]
    rw [ih (fun b hb => hs b (List.mem_cons_of_mem _ hb)) hlimit, List.length_cons,
      Nat.add_right_comm, Nat.add_assoc]
    rfl

end NumberLiteral

theorem decimalDigits_of_lt {n : Nat} (h : n < 10) :
    decimalDigits n = [UInt8.ofNat (0x30 + n)] := by
  interval_cases n <;> rfl

theorem decimalDigits_of_le {n : Nat} (h : 10 ≤ n) :
    decimalDigits n = decimalDigits (n / 10) ++ [UInt8.ofNat (0x30 + n % 10)] := by
  rw [← decimalDigits_of_lt (Nat.mod_lt n (by decide)), decimalDigits,
    Nat.toDigits_of_base_le (by decide) h, List.map_append, decimalDigits, decimalDigits,
    Nat.toDigits_of_lt_base (Nat.mod_lt n (by decide))]

theorem isDigit_ofNat {d : Nat} (h : d < 10) :
    Octet.isDigit (UInt8.ofNat (0x30 + d)) = true ∧
      Octet.digitValue (UInt8.ofNat (0x30 + d)) = d := by
  interval_cases d <;> decide

/-- The digits of a number spell it, and only zero begins with a zero. -/
theorem decimalDigits_spell (n : Nat) :
    ∃ b ds, decimalDigits n = b :: ds ∧ (b = Octet.zero → n = 0 ∧ ds = []) ∧
      (∀ d ∈ b :: ds, Octet.isDigit d = true) ∧
      NumberLiteral.digitsValue (Octet.digitValue b) ds = n := by
  -- The digits of `n` are those of `n / 10` and one more, which is how `Nat.toDigits` unfolds.
  induction n using Nat.strongRecOn with
  | ind n ih =>
    by_cases hn : n < 10
    · obtain ⟨hdigit, hvalue⟩ := isDigit_ofNat hn
      refine ⟨_, [], decimalDigits_of_lt hn, fun hzero => ⟨?_, rfl⟩, ?_, hvalue⟩
      · rw [← hvalue, hzero]
        rfl
      · intro d hd
        rwa [List.mem_singleton.mp hd]
    · obtain ⟨b, ds, hdigits, hzero, hall, hvalue⟩ := ih (n / 10) (by omega)
      obtain ⟨hlast, hlastValue⟩ := isDigit_ofNat (Nat.mod_lt n (show 0 < 10 by decide))
      refine ⟨b, ds ++ [UInt8.ofNat (0x30 + n % 10)], ?_, fun hb => ?_, ?_, ?_⟩
      · rw [decimalDigits_of_le (Nat.not_lt.mp hn), hdigits, List.cons_append]
      · have := (hzero hb).1
        omega
      · intro d hd
        rw [← List.cons_append, List.mem_append, List.mem_singleton] at hd
        rcases hd with hd | rfl
        · exact hall d hd
        · exact hlast
      · have hsplit := hvalue
        rw [NumberLiteral.digitsValue] at hsplit ⊢
        rw [List.foldl_append, hsplit, List.foldl_cons, List.foldl_nil, hlastValue]
        omega

namespace NumberLiteral

theorem read_decimalDigits {n : Nat} {negative : Bool} (hn : n < wordLimit) (hrest : Stops rest) :
    read negative (decimalDigits n ++ rest) = .ok (integer negative n, rest) := by
  have hend (m : Nat) : afterInteger negative m 0 rest = .ok (integer negative m, rest) := by
    rw [afterInteger, if_neg (head?_ne_dot_of_stops hrest), exponentNext_of_stops hrest]
    rfl
  obtain ⟨b, ds, hdigits, hzero, hall, hvalue⟩ := decimalDigits_spell n
  rw [hdigits, List.cons_append, read]
  by_cases hb : b = Octet.zero
  · obtain ⟨rfl, rfl⟩ := hzero hb
    rw [if_pos hb, List.nil_append, digitNext_of_stops hrest, ← hend]
    rfl
  · have htail : ∀ d ∈ ds, Octet.isDigit d = true := fun d hd => hall d (List.mem_cons_of_mem _ hd)
    rw [if_neg hb, if_pos (hall b List.mem_cons_self),
      takeDigits_append htail (hvalue.symm ▸ hn) (digitNext_of_stops hrest), hvalue]
    have hcount : countDigits rest = 0 := by
      cases rest with
      | nil => rfl
      | cons d rest =>
        have hd : Octet.isDigit d = false := digitNext_of_stops hrest
        rw [countDigits, List.takeWhile_cons_of_neg (ne_true_of_eq_false hd), List.length_nil]
    have hdrop : dropDigits rest = rest :=
      dropDigits_append (s := []) (by simp) (digitNext_of_stops hrest)
    simp only [hcount, hdrop, hend]

end NumberLiteral

/-! ### Numbers that are passed over -/

namespace Skip

open NumberLiteral

variable {whole fraction exponent rest : Bytes}

/-- An exponent, or what follows in its place, continues neither an integer nor a fraction. -/
theorem exponent_begins (h : Exponent exponent) (hrest : Stops rest) :
    digitNext (exponent ++ rest) = false ∧ (exponent ++ rest).head? ≠ some Octet.dot := by
  rcases h with rfl | ⟨letter, sign, digits, hletter, hsign, hdigits, rfl⟩
  · exact ⟨digitNext_of_stops hrest, head?_ne_dot_of_stops hrest⟩
  · simp only [List.mem_cons, List.not_mem_nil, or_false] at hletter
    have hdot : letter ≠ Octet.dot := by
      rcases hletter with rfl | rfl <;> decide
    refine ⟨?_, fun h => hdot (Option.some.inj h)⟩
    rcases hletter with rfl | rfl <;> rfl

theorem exponent_digits {sign digits : Bytes} (hsign : sign ∈ [[], [Octet.plus], [Octet.minus]])
    (hdigits : Digits digits) (hrest : Stops rest) :
    Skip.exponent (sign ++ digits ++ rest) = .ok rest := by
  obtain ⟨hne, hall⟩ := hdigits
  obtain ⟨b, ds, rfl⟩ := List.exists_cons_of_ne_nil hne
  have hb := hall b List.mem_cons_self
  have hds : dropDigits (ds ++ rest) = rest :=
    dropDigits_append (fun d hd => hall d (List.mem_cons_of_mem _ hd)) (digitNext_of_stops hrest)
  have hplus : b ≠ Octet.plus := by
    rintro rfl
    cases hb
  have hminus : b ≠ Octet.minus := by
    rintro rfl
    cases hb
  have hsign : (exponentSign (sign ++ b :: ds ++ rest)).2 = b :: (ds ++ rest) := by
    simp only [List.mem_cons, List.not_mem_nil, or_false] at hsign
    rcases hsign with rfl | rfl | rfl
    · simp [exponentSign, hplus, hminus]
    · rfl
    · rfl
  rw [Skip.exponent, hsign]
  simp only [hb, if_true, hds]

theorem exponent_text (h : Exponent exponent) (hrest : Stops rest) :
    (if exponentNext (exponent ++ rest) then Skip.exponent ((exponent ++ rest).drop 1)
      else .ok (exponent ++ rest)) = .ok rest := by
  rcases h with rfl | ⟨letter, sign, digits, hletter, hsign, hdigits, rfl⟩
  · rw [List.nil_append, exponentNext_of_stops hrest]
    rfl
  · have hnext : exponentNext (letter :: (sign ++ digits) ++ rest) = true := by
      simp only [List.mem_cons, List.not_mem_nil, or_false] at hletter
      rcases hletter with rfl | rfl <;> rfl
    rw [if_pos hnext]
    exact exponent_digits hsign hdigits hrest

/-- A fraction and an exponent are passed over, each of which may be missing. -/
theorem afterInteger_text (hfraction : Fraction fraction) (hexponent : Exponent exponent)
    (hrest : Stops rest) :
    digitNext (fraction ++ (exponent ++ rest)) = false ∧
      afterInteger (fraction ++ (exponent ++ rest)) = .ok rest := by
  obtain ⟨hdigit, hdot⟩ := exponent_begins hexponent hrest
  rcases hfraction with rfl | ⟨digits, ⟨hne, hall⟩, rfl⟩
  · refine ⟨hdigit, ?_⟩
    rw [afterInteger, List.nil_append, if_neg hdot, exponent_text hexponent hrest]
  · refine ⟨rfl, ?_⟩
    have hdrop : dropDigits (digits ++ (exponent ++ rest)) = exponent ++ rest :=
      dropDigits_append hall hdigit
    have hnext : digitNext (digits ++ (exponent ++ rest)) = true := by
      obtain ⟨b, ds, rfl⟩ := List.exists_cons_of_ne_nil hne
      exact hall b List.mem_cons_self
    simp only [afterInteger, List.cons_append, List.head?_cons, if_true, List.drop_succ_cons,
      List.drop_zero, hnext, Bool.not_true, hdrop]
    exact exponent_text hexponent hrest

theorem number_text (hwhole : Whole whole) (hfraction : Fraction fraction)
    (hexponent : Exponent exponent) (hrest : Stops rest) :
    number (whole ++ (fraction ++ (exponent ++ rest))) = .ok rest := by
  obtain ⟨hdigit, hafter⟩ := afterInteger_text hfraction hexponent hrest
  obtain ⟨⟨hne, hall⟩, hzero⟩ := hwhole
  obtain ⟨b, ds, rfl⟩ := List.exists_cons_of_ne_nil hne
  rw [List.cons_append, number]
  by_cases hb : b = Octet.zero
  · have hds : ds = [] := (List.cons.inj (hzero (congrArg some hb))).2
    rw [if_pos hb, hds, List.nil_append, hdigit, hafter]
    rfl
  · rw [if_neg hb, if_pos (hall b List.mem_cons_self),
      dropDigits_append (fun d hd => hall d (List.mem_cons_of_mem _ hd)) hdigit, hafter]

end Skip

end GzipStage.Json
