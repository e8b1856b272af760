import GzipStage.Proofs.Text.Order
import Mathlib.Data.Char
import Mathlib.Tactic.NormNum

/-! Only UTF-8 is read as text: the octets of an open sequence begin every character that can
still come of it. -/
namespace GzipStage.Utf8

variable {n : Nat} {b : UInt8} {g : Begun} {part bs : Bytes} {r : Reading}

/-- The octets for the last `count` groups of six bits. -/
def tails : (count n : Nat) → Bytes
  | 0, _ => []
  | count + 1, n => tail (n / 64 ^ count) :: tails count n

theorem exists_char (h : n < 0xd800 ∨ 0xdfff < n ∧ n < 0x110000) : ∃ c : Char, c.toNat = n :=
  ⟨Char.ofNatAux n h, rfl⟩

theorem encodeChar_two (hlow : 0x80 ≤ n) (hhigh : n < 0x800) :
    ∃ c : Char, c.toNat = n ∧ encodeChar c = UInt8.ofNat (0xc0 + n / 64) :: tails 1 n := by
  obtain ⟨c, rfl⟩ := exists_char (n := n) (by omega)
  refine ⟨c, rfl, ?_⟩
  simp only [encodeChar, if_neg (Nat.not_lt.mpr hlow), if_pos hhigh, tails, Nat.pow_zero,
    Nat.div_one]

theorem encodeChar_three (hlow : 0x800 ≤ n) (hhigh : n < 0x10000) (hgap : n < 0xd800 ∨ 0xdfff < n) :
    ∃ c : Char, c.toNat = n ∧ encodeChar c = UInt8.ofNat (0xe0 + n / 4096) :: tails 2 n := by
  obtain ⟨c, rfl⟩ := exists_char (n := n) (by omega)
  refine ⟨c, rfl, ?_⟩
  have hone : ¬ c.toNat < 0x80 := by omega
  simp only [encodeChar, if_neg hone, if_neg (Nat.not_lt.mpr hlow), if_pos hhigh, tails,
    Nat.pow_zero, Nat.pow_one, Nat.div_one]

theorem encodeChar_four (hlow : 0x10000 ≤ n) (hhigh : n < 0x110000) :
    ∃ c : Char, c.toNat = n ∧ encodeChar c = UInt8.ofNat (0xf0 + n / 262144) :: tails 3 n := by
  obtain ⟨c, rfl⟩ := exists_char (n := n) (by omega)
  refine ⟨c, rfl, ?_⟩
  have hone : ¬ c.toNat < 0x80 := by omega
  have htwo : ¬ c.toNat < 0x800 := by omega
  have hsquare : 64 ^ 2 = 4096 := by norm_num
  simp only [encodeChar, if_neg hone, if_neg htwo, if_neg (Nat.not_lt.mpr hlow), tails,
    Nat.pow_zero, Nat.pow_one, Nat.div_one, hsquare]

theorem encodeChar_append_inj {c d : Char} {xs ys : Bytes}
    (h : encodeChar c ++ xs = encodeChar d ++ ys) : c = d := by
  rcases lt_trichotomy c d with hlt | heq | hgt
  · exact absurd (h ▸ encodeChar_append_lt hlt xs ys) (List.lt_irrefl _)
  · exact heq
  · exact absurd (h ▸ encodeChar_append_lt hgt ys xs) (List.lt_irrefl _)

/-- A character begins with an octet that does not continue any, and goes on with octets that
do. -/
theorem encodeChar_cons (c : Char) :
    ∃ b more, encodeChar c = b :: more ∧ ¬ (0x80 ≤ b ∧ b ≤ 0xbf) ∧
      ∀ b ∈ more, 0x80 ≤ b ∧ b ≤ 0xbf := by
  have hgap : c.toNat < 0xd800 ∨ 0xdfff < c.toNat ∧ c.toNat < 0x110000 := c.valid
  unfold encodeChar
  simp only []
  split_ifs
  all_goals
    refine ⟨_, _, rfl, ?_, by simp [tail_bounds]⟩
    rw [UInt8.le_iff_toNat_le, UInt8.le_iff_toNat_le, toNat_lead (by omega)]
    simp only [UInt8.reduceToNat]
    omega

/-- `part` begins the sequence of every character that may still come of an open sequence. -/
structure Opens (part : Bytes) (g : Begun) : Prop where
  owed : 0 < g.owed
  least : 0x80 ≤ g.least.toNat
  greatest : g.greatest.toNat ≤ 0xbf
  chars : ∀ n, n / 64 ^ g.owed = g.bits →
    g.least.toNat ≤ 0x80 + n / 64 ^ (g.owed - 1) % 64 →
    0x80 + n / 64 ^ (g.owed - 1) % 64 ≤ g.greatest.toNat →
    ∃ c : Char, c.toNat = n ∧ encodeChar c = part ++ tails g.owed n

theorem ofNat_of_toNat {k : Nat} (h : k = b.toNat) : UInt8.ofNat k = b := by
  rw [h, UInt8.ofNat_toNat]

/-- The octet that begins a sequence leaves open just the characters that it begins. -/
theorem lead?_opens (h : lead? b = some g) : Opens [b] g := by
  have h128 : (0x80 : UInt8).toNat = 0x80 := rfl
  have h143 : (0x8f : UInt8).toNat = 0x8f := rfl
  have h144 : (0x90 : UInt8).toNat = 0x90 := rfl
  have h159 : (0x9f : UInt8).toNat = 0x9f := rfl
  have h160 : (0xa0 : UInt8).toNat = 0xa0 := rfl
  have h191 : (0xbf : UInt8).toNat = 0xbf := rfl
  have htwo (n : Nat) (hlow : 0x80 ≤ n) (hhigh : n < 0x800) (hb : 0xc0 + n / 64 = b.toNat) :
      ∃ c : Char, c.toNat = n ∧ encodeChar c = [b] ++ tails 1 n := by
    rw [← ofNat_of_toNat hb]
    exact encodeChar_two hlow hhigh
  have hthree (n : Nat) (hlow : 0x800 ≤ n) (hhigh : n < 0x10000) (hgap : n < 0xd800 ∨ 0xdfff < n)
      (hb : 0xe0 + n / 4096 = b.toNat) :
      ∃ c : Char, c.toNat = n ∧ encodeChar c = [b] ++ tails 2 n := by
    rw [← ofNat_of_toNat hb]
    exact encodeChar_three hlow hhigh hgap
  have hfour (n : Nat) (hlow : 0x10000 ≤ n) (hhigh : n < 0x110000)
      (hb : 0xf0 + n / 262144 = b.toNat) :
      ∃ c : Char, c.toNat = n ∧ encodeChar c = [b] ++ tails 3 n := by
    rw [← ofNat_of_toNat hb]
    exact encodeChar_four hlow hhigh
  rw [lead?_eq] at h
  -- One case for each range of octets; the bounds on the second octet keep out the rest.
  split_ifs at h
  all_goals
    rw [← Option.some.inj h]
    refine ⟨by simp, by simp, by simp, fun n hbits hleast hgreatest => ?_⟩
    simp only [h128, h143, h144, h159, h160, h191] at hleast hgreatest
    norm_num at hbits hleast hgreatest
  · exact htwo n (by omega) (by omega) (by omega)
  all_goals first
    | exact hthree n (by omega) (by omega) (by omega) (by omega)
    | exact hfour n (by omega) (by omega) (by omega)

/-- One more octet of an open sequence is either the last of a character or leaves fewer. -/
theorem Opens.push (h : Opens part g) (hb : g.least ≤ b ∧ b ≤ g.greatest) :
    (g.owed ≤ 1 → encodeChar (Char.ofNat (g.bits * 64 + b.toNat % 64)) = part ++ [b]) ∧
      (1 < g.owed →
        Opens (part ++ [b]) ⟨g.owed - 1, 0x80, 0xbf, g.bits * 64 + b.toNat % 64⟩) := by
  obtain ⟨howed, hleast, hgreatest, hchars⟩ := h
  rw [UInt8.le_iff_toNat_le, UInt8.le_iff_toNat_le] at hb
  have hlow : 0x80 + b.toNat % 64 = b.toNat := by omega
  have htail (n : Nat) (hn : n % 64 = b.toNat % 64) : tail n = b :=
    ofNat_of_toNat (by rw [hn, hlow])
  constructor
  · intro hlast
    have hone : g.owed = 1 := by omega
    rw [hone] at hchars
    have hn := hchars (g.bits * 64 + b.toNat % 64)
    simp only [Nat.pow_one, Nat.sub_self, Nat.pow_zero, Nat.div_one, tails] at hn
    obtain ⟨c, hc, hencode⟩ := hn (by omega) (by omega) (by omega)
    rw [← hc, Char.ofNat_toNat, hencode, htail _ (by omega)]
  · intro hmore
    refine ⟨Nat.sub_pos_of_lt hmore, Nat.le_refl _, Nat.le_refl _, fun n hbits _ _ => ?_⟩
    obtain ⟨owed, howed⟩ := Nat.exists_eq_add_of_lt hmore
    rw [show g.owed = owed + 1 + 1 by omega] at hbits hchars ⊢
    simp only [Nat.add_sub_cancel] at hbits hchars ⊢
    have hall : n / 64 ^ (owed + 1 + 1) = g.bits := by
      rw [Nat.pow_succ, ← Nat.div_div_eq_div_mul, hbits]
      omega
    obtain ⟨c, hc, hencode⟩ := hchars n hall (by omega) (by omega)
    refine ⟨c, hc, ?_⟩
    rw [hencode, tails, htail _ (by omega), List.append_assoc, List.singleton_append]

/-- What has been read is the sequences of the characters found, and the sequence that is open. -/
def Reading.Accounts (r : Reading) (bs : Bytes) : Prop :=
  (∀ p ∈ r.pieces, p.isSome) → ∃ part,
    bs = (r.pieces.reverse.filterMap id).flatMap encodeChar ++ part ∧
      r.begun.elim (part = []) (Opens part)

theorem accounts_malformed {ps : List (Option Char)} {begun : Option Begun} (h : none ∈ ps) :
    Reading.Accounts ⟨ps, begun⟩ bs := fun hall => nomatch hall none h

theorem accounts_char {ps : List (Option Char)} {c : Char}
    (h : bs = (ps.reverse.filterMap id).flatMap encodeChar ++ encodeChar c) :
    Reading.Accounts ⟨some c :: ps, none⟩ bs := by
  refine fun _ => ⟨[], ?_, rfl⟩
  rw [h, List.reverse_cons, List.filterMap_append, List.flatMap_append, List.append_nil]
  simp

theorem start_accounts {ps : List (Option Char)} (b : UInt8)
    (h : (∀ p ∈ ps, p.isSome) → bs = (ps.reverse.filterMap id).flatMap encodeChar) :
    (Reading.start ps b).Accounts (bs ++ [b]) := by
  rw [Reading.start]
  split_ifs with hlow
  · intro hall
    have hb : b.toNat < 0x80 := UInt8.lt_iff_toNat_lt.mp hlow
    obtain ⟨c, hc⟩ := exists_char (n := b.toNat) (by omega)
    obtain ⟨hencode, _⟩ := encodeChar_of_lt (hc ▸ hb)
    rw [← hc, Char.ofNat_toNat] at hall ⊢
    refine accounts_char ?_ hall
    rw [h fun p hp => hall p (List.mem_cons_of_mem _ hp), hencode, ofNat_of_toNat hc]
  · cases hlead : lead? b with
    | none => exact accounts_malformed List.mem_cons_self
    | some g => exact fun hall => ⟨[b], by rw [h hall], lead?_opens hlead⟩

theorem push_accounts (h : r.Accounts bs) (b : UInt8) : (r.push b).Accounts (bs ++ [b]) := by
  obtain ⟨ps, begun⟩ := r
  rw [Reading.push]
  cases begun with
  | none =>
    refine start_accounts b fun hall => ?_
    obtain ⟨part, hbs, hpart⟩ := h hall
    have hpart : part = [] := hpart
    rw [hbs, hpart, List.append_nil]
  | some g =>
    simp only [Bool.and_eq_true, decide_eq_true_eq]
    split_ifs with hb hlast
    · intro hall
      obtain ⟨part, hbs, hopens⟩ := h fun p hp => hall p (List.mem_cons_of_mem _ hp)
      refine accounts_char ?_ hall
      rw [hbs, List.append_assoc, (Opens.push hopens hb).1 hlast]
    · intro hall
      obtain ⟨part, hbs, hopens⟩ := h hall
      refine ⟨part ++ [b], ?_, (Opens.push hopens hb).2 (Nat.not_le.mp hlast)⟩
      rw [hbs, List.append_assoc]
    · refine start_accounts b fun hall => ?_
      cases hall none List.mem_cons_self

theorem foldl_push_accounts (h : r.Accounts bs) (more : Bytes) :
    (more.foldl Reading.push r).Accounts (bs ++ more) := by
  induction more generalizing r bs with
  | nil => rwa [List.append_nil]
  | cons b more ih =>
    rw [List.append_cons]
    exact ih (push_accounts h b)

/-- A sequence that is still open at the end is one more malformed part. -/
theorem Reading.Accounts.close (h : r.Accounts bs) (hall : r.close.all Option.isSome = true) :
    bs = (r.close.filterMap id).flatMap encodeChar := by
  obtain ⟨ps, begun⟩ := r
  cases begun with
  | some g => simp [Reading.close] at hall
  | none =>
    simp only [Reading.close, List.all_reverse] at hall ⊢
    obtain ⟨part, hbs, hpart⟩ := h (List.all_eq_true.mp hall)
    have hpart : part = [] := hpart
    rw [hbs, hpart, List.append_nil]

theorem eq_encode_of_decode? {t : String} (h : decode? bs = some t) : bs = encode t := by
  have hstart : Reading.Accounts ⟨[], none⟩ [] := fun _ => ⟨[], rfl, rfl⟩
  have haccounts := foldl_push_accounts hstart bs
  simp only [decode?, pieces] at h
  obtain ⟨hall, h⟩ := Option.ite_none_right_eq_some.mp h
  rw [← Option.some.inj h, encode, String.toList_ofList]
  exact haccounts.close hall

end GzipStage.Utf8
