import GzipStage.Text.Utf8
import Mathlib.Tactic.SplitIfs

/-! Text comes back from its UTF-8 form. -/
namespace GzipStage.Utf8

variable {n bits : Nat} {least greatest : UInt8} {ps : List (Option Char)}

theorem toNat_tail (n : Nat) : (tail n).toNat = 0x80 + n % 64 := by
  rw [tail, UInt8.toNat_ofNat']
  omega

theorem tail_bounds (n : Nat) : 0x80 ≤ tail n ∧ tail n ≤ 0xbf := by
  rw [UInt8.le_iff_toNat_le, UInt8.le_iff_toNat_le, toNat_tail]
  exact ⟨Nat.le_add_right _ _, Nat.add_le_add_left (Nat.le_of_lt_succ (Nat.mod_lt n (by decide))) _⟩

theorem encodeChar_of_lt {c : Char} (hc : c.toNat < 0x80) :
    encodeChar c = [UInt8.ofNat c.toNat] ∧ (UInt8.ofNat c.toNat).toNat = c.toNat := by
  constructor
  · simp only [encodeChar, if_pos hc]
  · rw [UInt8.toNat_ofNat']
    omega

theorem le_of_mem_encodeChar {c : Char} (hc : 0x80 ≤ c.toNat) {b : UInt8} (hb : b ∈ encodeChar c) :
    0x80 ≤ b.toNat := by
  have hgap : c.toNat < 0xd800 ∨ 0xdfff < c.toNat ∧ c.toNat < 0x110000 := c.valid
  have hlead (k : Nat) (hk : 0x80 ≤ k ∧ k < 0x100) : 0x80 ≤ (UInt8.ofNat k).toNat := by
    rw [UInt8.toNat_ofNat']
    omega
  have htail (k : Nat) : 0x80 ≤ (tail k).toNat := toNat_tail k ▸ Nat.le_add_right _ _
  simp only [encodeChar, if_neg (Nat.not_lt.mpr hc)] at hb
  split_ifs at hb
  all_goals
    simp only [List.mem_cons, List.not_mem_nil, or_false] at hb
    rcases hb with rfl | hb
    · exact hlead _ (by omega)
    · rcases hb with rfl | rfl | rfl <;> exact htail _

theorem encode_append (s t : String) : encode (s ++ t) = encode s ++ encode t := by
  rw [encode, String.toList_append, List.flatMap_append]
  rfl

theorem encodeChar_ne_nil (c : Char) : encodeChar c ≠ [] := by
  unfold encodeChar
  simp only []
  split_ifs <;> exact List.cons_ne_nil _ _

theorem eq_of_mem_encodeChar {c d : Char} (hd : d.toNat < 0x80)
    (h : UInt8.ofNat d.toNat ∈ encodeChar c) : c = d := by
  have hnumber : (UInt8.ofNat d.toNat).toNat = d.toNat := (encodeChar_of_lt hd).2
  by_cases hc : c.toNat < 0x80
  · obtain ⟨hone, hsame⟩ := encodeChar_of_lt hc
    rw [hone, List.mem_singleton] at h
    exact Char.toNat_inj.mp (by rw [← hsame, ← h, hnumber])
  · have := le_of_mem_encodeChar (Nat.not_lt.mp hc) h
    omega

theorem push_tail {owed : Nat} (hbits : bits = n / 64)
    (hbounds : least ≤ tail n ∧ tail n ≤ greatest) :
    Reading.push ⟨ps, some ⟨owed + 2, least, greatest, bits⟩⟩ (tail n) =
      ⟨ps, some ⟨owed + 1, 0x80, 0xbf, n⟩⟩ := by
  have hn : n / 64 * 64 + (tail n).toNat % 64 = n := by
    rw [toNat_tail]
    omega
  have howed : ¬ owed + 2 ≤ 1 := by omega
  simp only [Reading.push, hbits, hbounds, decide_true, Bool.and_self, if_true, hn, if_neg howed]
  rfl

theorem push_last (hbits : bits = n / 64) (hbounds : least ≤ tail n ∧ tail n ≤ greatest) :
    Reading.push ⟨ps, some ⟨1, least, greatest, bits⟩⟩ (tail n) =
      ⟨some (Char.ofNat n) :: ps, none⟩ := by
  have hn : n / 64 * 64 + (tail n).toNat % 64 = n := by
    rw [toNat_tail]
    omega
  simp only [Reading.push, hbits, hbounds, decide_true, Bool.and_self, if_true, hn, Nat.le_refl]

theorem lead?_eq (b : UInt8) :
    lead? b =
      if 0xc2 ≤ b.toNat ∧ b.toNat ≤ 0xdf then some ⟨1, 0x80, 0xbf, b.toNat - 0xc0⟩
      else if b.toNat = 0xe0 then some ⟨2, 0xa0, 0xbf, 0⟩
      else if b.toNat = 0xed then some ⟨2, 0x80, 0x9f, 13⟩
      else if 0xe1 ≤ b.toNat ∧ b.toNat ≤ 0xef then some ⟨2, 0x80, 0xbf, b.toNat - 0xe0⟩
      else if b.toNat = 0xf0 then some ⟨3, 0x90, 0xbf, 0⟩
      else if 0xf1 ≤ b.toNat ∧ b.toNat ≤ 0xf3 then some ⟨3, 0x80, 0xbf, b.toNat - 0xf0⟩
      else if b.toNat = 0xf4 then some ⟨3, 0x80, 0x8f, 4⟩
      else none := by
  simp only [lead?, UInt8.le_iff_toNat_le, ← UInt8.toNat_inj, Bool.and_eq_true, decide_eq_true_eq]
  rfl

theorem lead?_two (hlow : 0x80 ≤ n) (hhigh : n < 0x800) :
    lead? (UInt8.ofNat (0xc0 + n / 64)) = some ⟨1, 0x80, 0xbf, n / 64⟩ := by
  have hb : (UInt8.ofNat (0xc0 + n / 64)).toNat = 0xc0 + n / 64 := by
    rw [UInt8.toNat_ofNat']
    omega
  rw [lead?_eq, hb, if_pos (by omega), Nat.add_sub_cancel_left]

/-- The octet that begins a sequence of three.  The bounds on the second octet leave room for every
character. -/
theorem lead?_three (hlow : 0x800 ≤ n) (hhigh : n < 0x10000) (hgap : n < 0xd800 ∨ 0xdfff < n) :
    ∃ least greatest, lead? (UInt8.ofNat (0xe0 + n / 4096)) = some ⟨2, least, greatest, n / 4096⟩ ∧
      least ≤ tail (n / 64) ∧ tail (n / 64) ≤ greatest := by
  have hb : (UInt8.ofNat (0xe0 + n / 4096)).toNat = 0xe0 + n / 4096 := by
    rw [UInt8.toNat_ofNat']
    omega
  obtain ⟨htail, htail'⟩ := tail_bounds (n / 64)
  simp only [UInt8.le_iff_toNat_le, toNat_tail] at htail htail' ⊢
  rw [lead?_eq, hb, if_neg (by omega)]
  -- 0xe0 rules out overlong forms and 0xed surrogates, so their second octets have other bounds.
  by_cases hfirst : n / 4096 = 0
  · refine ⟨0xa0, 0xbf, by rw [if_pos (by omega), hfirst], ?_, htail'⟩
    show 0xa0 ≤ _
    omega
  by_cases hgap' : n / 4096 = 13
  · refine ⟨0x80, 0x9f, by rw [if_neg (by omega), if_pos (by omega), hgap'], htail, ?_⟩
    show _ ≤ 0x9f
    omega
  · refine ⟨0x80, 0xbf, ?_, htail, htail'⟩
    rw [if_neg (by omega), if_neg (by omega), if_pos (by omega), Nat.add_sub_cancel_left]

theorem lead?_four (hlow : 0x10000 ≤ n) (hhigh : n < 0x110000) :
    ∃ least greatest,
      lead? (UInt8.ofNat (0xf0 + n / 262144)) = some ⟨3, least, greatest, n / 262144⟩ ∧
      least ≤ tail (n / 4096) ∧ tail (n / 4096) ≤ greatest := by
  have hb : (UInt8.ofNat (0xf0 + n / 262144)).toNat = 0xf0 + n / 262144 := by
    rw [UInt8.toNat_ofNat']
    omega
  obtain ⟨htail, htail'⟩ := tail_bounds (n / 4096)
  simp only [UInt8.le_iff_toNat_le, toNat_tail] at htail htail' ⊢
  rw [lead?_eq, hb, if_neg (by omega), if_neg (by omega), if_neg (by omega), if_neg (by omega)]
  -- 0xf0 rules out overlong forms and 0xf4 what lies above U+10FFFF.
  by_cases hfirst : n / 262144 = 0
  · refine ⟨0x90, 0xbf, by rw [if_pos (by omega), hfirst], ?_, htail'⟩
    show 0x90 ≤ _
    omega
  by_cases hend : n / 262144 = 4
  · refine ⟨0x80, 0x8f, ?_, htail, ?_⟩
    · rw [if_neg (by omega), if_neg (by omega), if_pos (by omega), hend]
    · show _ ≤ 0x8f
      omega
  · refine ⟨0x80, 0xbf, ?_, htail, htail'⟩
    rw [if_neg (by omega), if_pos (by omega), Nat.add_sub_cancel_left]

theorem push_lead {b : UInt8} {g : Begun} (h : lead? b = some g) :
    Reading.push ⟨ps, none⟩ b = ⟨ps, some g⟩ := by
  have hhigh : ¬ b < 0x80 := by
    intro hlow
    rw [UInt8.lt_iff_toNat_lt] at hlow
    have hlow : b.toNat < 0x80 := hlow
    rw [lead?_eq, if_neg (by omega), if_neg (by omega), if_neg (by omega), if_neg (by omega),
      if_neg (by omega), if_neg (by omega), if_neg (by omega)] at h
    cases h
  simp only [Reading.push, Reading.start, h, if_neg hhigh]

theorem foldl_push_encodeChar (c : Char) :
    (encodeChar c).foldl Reading.push ⟨ps, none⟩ = ⟨some c :: ps, none⟩ := by
  have hgap : c.toNat < 0xd800 ∨ 0xdfff < c.toNat ∧ c.toNat < 0x110000 := c.valid
  have hc : Char.ofNat c.toNat = c := Char.ofNat_toNat c
  unfold encodeChar
  simp only []
  split_ifs with hone htwo hthree
  · have hb := (encodeChar_of_lt hone).2
    have hlow : UInt8.ofNat c.toNat < 0x80 := by
      rw [UInt8.lt_iff_toNat_lt, hb]
      exact hone
    simp only [List.foldl_cons, List.foldl_nil, Reading.push, Reading.start, if_pos hlow, hb, hc]
  · rw [List.foldl_cons, push_lead (lead?_two (by omega) htwo), List.foldl_cons,
      push_last rfl (tail_bounds _), List.foldl_nil, hc]
  · obtain ⟨least, greatest, hlead, hbounds⟩ := lead?_three (by omega) hthree (by omega)
    rw [List.foldl_cons, push_lead hlead, List.foldl_cons,
      push_tail (Nat.div_div_eq_div_mul c.toNat 64 64).symm hbounds, List.foldl_cons,
      push_last rfl (tail_bounds _), List.foldl_nil, hc]
  · obtain ⟨least, greatest, hlead, hbounds⟩ := lead?_four (n := c.toNat) (by omega) (by omega)
    rw [List.foldl_cons, push_lead hlead, List.foldl_cons,
      push_tail (Nat.div_div_eq_div_mul c.toNat 4096 64).symm hbounds, List.foldl_cons,
      push_tail (Nat.div_div_eq_div_mul c.toNat 64 64).symm (tail_bounds _), List.foldl_cons,
      push_last rfl (tail_bounds _), List.foldl_nil, hc]

theorem foldl_push_encode (cs : List Char) :
    (cs.flatMap encodeChar).foldl Reading.push ⟨ps, none⟩ =
      ⟨(cs.map some).reverse ++ ps, none⟩ := by
  induction cs generalizing ps with
  | nil => rfl
  | cons c cs ih =>
    rw [List.flatMap_cons, List.foldl_append, foldl_push_encodeChar, ih, List.map_cons,
      List.reverse_cons, List.append_assoc, List.singleton_append]

theorem decode?_encode (s : String) : decode? (encode s) = some s := by
  have hpieces : pieces (encode s) = s.toList.map some := by
    rw [pieces, encode, foldl_push_encode, Reading.close, List.append_nil, List.reverse_reverse]
  have hall : (s.toList.map some).all Option.isSome = true := by
    rw [List.all_map]
    exact List.all_eq_true.mpr fun _ _ => rfl
  have hchars : (s.toList.map some).filterMap id = s.toList := by
    rw [List.filterMap_map]
    exact List.filterMap_some
  simp only [decode?, hpieces, hall, if_true, hchars, String.ofList_toList]

end GzipStage.Utf8
