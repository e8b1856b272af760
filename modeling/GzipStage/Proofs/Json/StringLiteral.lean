import GzipStage.Json.Skip
import GzipStage.Proofs.Json.Grammar
import GzipStage.Proofs.Steps
import GzipStage.Proofs.Text.Utf8

/-! String literals are read back. -/
namespace GzipStage.Json

theorem hexValue?_eq (b : UInt8) :
    Octet.hexValue? b =
      if 0x30 ≤ b.toNat ∧ b.toNat ≤ 0x39 then some (b.toNat - 0x30)
      else if 0x41 ≤ b.toNat ∧ b.toNat ≤ 0x46 then some (b.toNat - 0x41 + 10)
      else if 0x61 ≤ b.toNat ∧ b.toNat ≤ 0x66 then some (b.toNat - 0x61 + 10)
      else none := by
  simp only [Octet.hexValue?, Octet.isDigit, UInt8.le_iff_toNat_le, Bool.and_eq_true,
    decide_eq_true_eq]
  rfl

theorem HexDigit.hexValue?_eq_some {b : UInt8} {d : Nat} (h : HexDigit b d) :
    Octet.hexValue? b = some d := by
  rw [hexValue?_eq]
  rcases h with ⟨hd, hb⟩ | ⟨hten, hd, hb | hb⟩
  · rw [if_pos (by omega), hb, Nat.add_sub_cancel_left]
  · rw [if_neg (by omega), if_pos (by omega), hb, Nat.add_sub_cancel_left, Nat.sub_add_cancel hten]
  · rw [if_neg (by omega), if_neg (by omega), if_pos (by omega), hb, Nat.add_sub_cancel_left,
      Nat.sub_add_cancel hten]

theorem HexUnit.digits {s : Bytes} {n : Nat} (h : HexUnit s n) :
    ∃ a b c d i j k l, s = [a, b, c, d] ∧ ((i * 16 + j) * 16 + k) * 16 + l = n ∧
      HexDigit a i ∧ HexDigit b j ∧ HexDigit c k ∧ HexDigit d l := by
  obtain ⟨hlength, digits, hdigits, hn⟩ := h
  match s, hlength, hdigits with
  | [a, b, c, d], _, .cons ha (.cons hb (.cons hc (.cons hd .nil))) =>
    exact ⟨a, b, c, d, _, _, _, _, rfl, by simpa using hn, ha, hb, hc, hd⟩

theorem plain_of_mem_encodeChar {c : Char} {b : UInt8} (hcontrol : 0x20 ≤ c.toNat)
    (hquote : c ≠ '"') (hbackslash : c ≠ '\\') (hb : b ∈ Utf8.encodeChar c) :
    0x20 ≤ b ∧ b ≠ Octet.quote ∧ b ≠ Octet.backslash := by
  have hne (d : Char) (hd : c ≠ d) : c.toNat ≠ d.toNat := fun h => hd (Char.toNat_inj.mp h)
  rw [UInt8.le_iff_toNat_le, ne_eq, ne_eq, ← UInt8.toNat_inj, ← UInt8.toNat_inj]
  by_cases hc : c.toNat < 0x80
  · obtain ⟨hone, hnumber⟩ := Utf8.encodeChar_of_lt hc
    rw [hone, List.mem_singleton] at hb
    rw [hb, hnumber]
    exact ⟨hcontrol, hne _ hquote, hne _ hbackslash⟩
  · have hhigh := Utf8.le_of_mem_encodeChar (Nat.not_lt.mp hc) hb
    refine ⟨Nat.le_trans (by decide) hhigh, ?_, ?_⟩
    · exact Nat.ne_of_gt (Nat.lt_of_lt_of_le (by decide) hhigh)
    · exact Nat.ne_of_gt (Nat.lt_of_lt_of_le (by decide) hhigh)

namespace StringLiteral

variable {acc out rest : Bytes} {state state' : State} {b : UInt8}

theorem contents_cons (h : step state b = .ok (out, state'))
    (hb : state = .plain → b ≠ Octet.quote) :
    contents acc state (b :: rest) = contents (out.reverse ++ acc) state' rest := by
  have hopen : ¬ (decide (state = .plain) && decide (b = Octet.quote)) = true := by
    intro hend
    simp only [Bool.and_eq_true, decide_eq_true_eq] at hend
    exact hb hend.1 hend.2
  rw [contents, if_neg hopen, h]

theorem contents_raw {s : Bytes}
    (hs : ∀ b ∈ s, 0x20 ≤ b ∧ b ≠ Octet.quote ∧ b ≠ Octet.backslash) :
    contents acc .plain (s ++ rest) = contents (s.reverse ++ acc) .plain rest := by
  induction s generalizing acc with
  | nil => rfl
  | cons b s ih =>
    obtain ⟨hcontrol, hquote, hbackslash⟩ := hs b List.mem_cons_self
    have hstep : step .plain b = .ok ([b], .plain) := by
      rw [step, if_neg hbackslash, if_neg (UInt8.not_lt.mpr hcontrol)]
    rw [List.cons_append, contents_cons hstep fun _ => hquote,
      ih fun b hb => hs b (List.mem_cons_of_mem _ hb)]
    simp

theorem contents_unit {digits : Bytes} {n : Nat} {high : Option Nat} (h : HexUnit digits n)
    (hunit : unit high n = .ok (out, state)) :
    contents acc (.digits 4 (some 0) high) (digits ++ rest) =
      contents (out.reverse ++ acc) state rest := by
  obtain ⟨a, b, c, d, i, j, k, l, rfl, hn, ha, hb, hc, hd⟩ := h.digits
  have hfirst : step (.digits 4 (some 0) high) a = .ok ([], .digits 3 (some i) high) := by
    simp [step, ha.hexValue?_eq_some]
  have hsecond : step (.digits 3 (some i) high) b =
      .ok ([], .digits 2 (some (i * 16 + j)) high) := by
    simp [step, hb.hexValue?_eq_some]
  have hthird : step (.digits 2 (some (i * 16 + j)) high) c =
      .ok ([], .digits 1 (some ((i * 16 + j) * 16 + k)) high) := by
    simp [step, hc.hexValue?_eq_some]
  have hlast : step (.digits 1 (some ((i * 16 + j) * 16 + k)) high) d = .ok (out, state) := by
    simp [step, hd.hexValue?_eq_some, hn, hunit]
  simp only [List.cons_append, List.nil_append]
  rw [contents_cons hfirst nofun, contents_cons hsecond nofun, contents_cons hthird nofun,
    contents_cons hlast nofun]
  rfl

/-- An escape by number, met after the high surrogate `high` or on its own. -/
theorem contents_numberEscape {digits : Bytes} {n : Nat} (h : HexUnit digits n)
    (hunit : unit none n = .ok (out, state)) :
    contents acc .plain (numberEscape digits ++ rest) =
      contents (out.reverse ++ acc) state rest := by
  have hbackslash : step .plain Octet.backslash = .ok ([], .escape) := rfl
  have hletter : step .escape 0x75 = .ok ([], .digits 4 (some 0) none) := rfl
  rw [numberEscape, List.cons_append, List.cons_append, contents_cons hbackslash (by decide),
    contents_cons hletter nofun, List.reverse_nil, List.nil_append, List.nil_append,
    contents_unit h hunit]

theorem contents_lowEscape {digits : Bytes} {n high : Nat} (h : HexUnit digits n)
    (hunit : unit (some high) n = .ok (out, state)) :
    contents acc (.backslash high) (numberEscape digits ++ rest) =
      contents (out.reverse ++ acc) state rest := by
  have hbackslash : step (.backslash high) Octet.backslash = .ok ([], .letter high) := rfl
  have hletter : step (.letter high) 0x75 = .ok ([], .digits 4 (some 0) (some high)) := rfl
  rw [numberEscape, List.cons_append, List.cons_append, contents_cons hbackslash nofun,
    contents_cons hletter nofun, List.reverse_nil, List.nil_append, List.nil_append,
    contents_unit h hunit]

theorem contents_letterEscape {c : Char} (h : (b, c) ∈ letterEscapes) :
    contents acc .plain (Octet.backslash :: b :: rest) =
      contents ((Utf8.encodeChar c).reverse ++ acc) .plain rest := by
  have hbackslash : step .plain Octet.backslash = .ok ([], .escape) := rfl
  have hletter : step .escape b = .ok (Utf8.encodeChar c, .plain) := by
    simp only [letterEscapes, List.mem_cons, Prod.mk.injEq, List.not_mem_nil, or_false] at h
    rcases h with ⟨rfl, rfl⟩ | ⟨rfl, rfl⟩ | ⟨rfl, rfl⟩ | ⟨rfl, rfl⟩ | ⟨rfl, rfl⟩ | ⟨rfl, rfl⟩ |
      ⟨rfl, rfl⟩ | ⟨rfl, rfl⟩ <;> rfl
  rw [contents_cons hbackslash (by decide), contents_cons hletter nofun]
  rfl

theorem contents_encodeChar {c : Char} (hcontrol : 0x20 ≤ c.toNat) (hquote : c ≠ '"')
    (hbackslash : c ≠ '\\') :
    contents acc .plain (Utf8.encodeChar c ++ rest) =
      contents ((Utf8.encodeChar c).reverse ++ acc) .plain rest :=
  contents_raw fun _ hb => plain_of_mem_encodeChar hcontrol hquote hbackslash hb

/-- A character gives out its octets in whatever way it is written. -/
theorem contents_charText {c : Char} {text : Bytes} (h : CharText c text) :
    contents acc .plain (text ++ rest) =
      contents ((Utf8.encodeChar c).reverse ++ acc) .plain rest := by
  -- A character is no surrogate, so a single escape by number cannot be taken for half a pair.
  have hgap : c.toNat < 0xd800 ∨ 0xdfff < c.toNat ∧ c.toNat < 0x110000 := c.valid
  cases h with
  | raw hcontrol hquote hbackslash => exact contents_encodeChar hcontrol hquote hbackslash
  | letter hletter => exact contents_letterEscape hletter
  | unit hunit =>
    refine contents_numberEscape hunit ?_
    have hlow : ¬ (0xdc00 ≤ c.toNat ∧ c.toNat ≤ 0xdfff) := by omega
    have hhigh : ¬ (0xd800 ≤ c.toNat ∧ c.toNat ≤ 0xdbff) := by omega
    simp [unit, hlow, hhigh]
  | @pair _ high low _ _ hunit hunit' hhigh hlow hc =>
    have hfirst : StringLiteral.unit none high = .ok ([], .backslash high) := by
      have hnot : ¬ (0xdc00 ≤ high ∧ high ≤ 0xdfff) := by omega
      simp [StringLiteral.unit, hnot, hhigh]
    have hsecond : StringLiteral.unit (some high) low = .ok (Utf8.encodeChar c, .plain) := by
      simp [StringLiteral.unit, hlow, ← hc]
    rw [List.append_assoc, contents_numberEscape hunit hfirst, List.reverse_nil, List.nil_append,
      contents_lowEscape hunit' hsecond]

theorem contents_stringText {cs : List Char} {texts : List Bytes}
    (h : List.Forall₂ CharText cs texts) :
    contents acc .plain (texts.flatten ++ Octet.quote :: rest) =
      .ok (acc.reverse ++ cs.flatMap Utf8.encodeChar, rest) := by
  induction h generalizing acc with
  | nil => simp [contents]
  | cons hc hcs ih =>
    rw [List.flatten_cons, List.append_assoc, contents_charText hc, ih, List.flatMap_cons,
      List.reverse_append, List.reverse_reverse, List.append_assoc]

end StringLiteral

theorem StringText.read {t : String} {s : Bytes} (h : StringText t s) :
    ∃ tail, s = Octet.quote :: tail ∧
      ∀ rest, StringLiteral.read (tail ++ rest) = .ok (t, rest) := by
  obtain ⟨texts, htexts, rfl⟩ := h
  refine ⟨_, rfl, fun rest => ?_⟩
  have hdecode : Utf8.decode? (t.toList.flatMap Utf8.encodeChar) = some t := Utf8.decode?_encode t
  rw [StringLiteral.read, List.append_assoc, List.singleton_append,
    StringLiteral.contents_stringText htexts, ok_bind]
  simp only [List.reverse_nil, List.nil_append, hdecode]

namespace Skip

theorem string_literalPart {part rest : Bytes} (h : LiteralPart part) :
    string .plain (part ++ rest) = string .plain rest := by
  cases h with
  | octet hcontrol hquote hbackslash =>
    rw [List.singleton_append, string, if_neg hquote, if_neg hbackslash,
      if_neg (UInt8.not_lt.mpr hcontrol)]
  | letter hletter =>
    simp only [letterEscapes, List.mem_cons, Prod.mk.injEq, List.not_mem_nil, or_false] at hletter
    rcases hletter with ⟨rfl, rfl⟩ | ⟨rfl, rfl⟩ | ⟨rfl, rfl⟩ | ⟨rfl, rfl⟩ | ⟨rfl, rfl⟩ |
      ⟨rfl, rfl⟩ | ⟨rfl, rfl⟩ | ⟨rfl, rfl⟩ <;> rfl
  | unit hunit =>
    obtain ⟨a, b, c, d, i, j, k, l, rfl, _, ha, hb, hc, hd⟩ := hunit.digits
    have hbegin : string .plain (numberEscape [a, b, c, d] ++ rest) =
        string (.digits 4 true) (a :: b :: c :: d :: rest) := rfl
    rw [hbegin]
    simp [string, ha.hexValue?_eq_some, hb.hexValue?_eq_some, hc.hexValue?_eq_some,
      hd.hexValue?_eq_some]

theorem string_literalParts {parts : List Bytes} {rest : Bytes}
    (h : ∀ part ∈ parts, LiteralPart part) :
    string .plain (parts.flatten ++ Octet.quote :: rest) = .ok rest := by
  induction parts with
  | nil => rfl
  | cons part parts ih =>
    rw [List.flatten_cons, List.append_assoc, string_literalPart (h part List.mem_cons_self),
      ih fun part hpart => h part (List.mem_cons_of_mem _ hpart)]

end Skip

theorem Literal.skip {s : Bytes} (h : Literal s) :
    ∃ tail, s = Octet.quote :: tail ∧ ∀ rest, Skip.string .plain (tail ++ rest) = .ok rest := by
  obtain ⟨parts, hparts, rfl⟩ := h
  refine ⟨_, rfl, fun rest => ?_⟩
  rw [List.append_assoc, List.singleton_append, Skip.string_literalParts hparts]

end GzipStage.Json
