import GzipStage.Proofs.Json.StringLiteral
import GzipStage.Proofs.Text.Decode

/-! What is read as a string is written as that string. The machine does not know where a
character ends, so the characters are only found again in the text that has been read. -/
namespace GzipStage.Json

variable {a b c d : UInt8} {s rest : Bytes}

theorem hexDigit_of_hexValue? {n : Nat} (h : Octet.hexValue? b = some n) : HexDigit b n := by
  rw [hexValue?_eq] at h
  unfold HexDigit
  split_ifs at h <;> (obtain rfl := Option.some.inj h; omega)

theorem hexUnit_of_digits {i j k l : Nat} (ha : Octet.hexValue? a = some i)
    (hb : Octet.hexValue? b = some j) (hc : Octet.hexValue? c = some k)
    (hd : Octet.hexValue? d = some l) :
    HexUnit [a, b, c, d] (((i * 16 + j) * 16 + k) * 16 + l) := by
  refine ⟨rfl, [i, j, k, l], ?_, by simp⟩
  exact .cons (hexDigit_of_hexValue? ha) (.cons (hexDigit_of_hexValue? hb)
    (.cons (hexDigit_of_hexValue? hc) (.cons (hexDigit_of_hexValue? hd) .nil)))

theorem HexUnit.lt {n : Nat} (h : HexUnit s n) : n < 0x10000 := by
  obtain ⟨a, b, c, d, i, j, k, l, _, rfl, ha, hb, hc, hd⟩ := h.digits
  have hless {b : UInt8} {n : Nat} (h : HexDigit b n) : n < 16 := by
    rcases h with ⟨hn, _⟩ | ⟨_, hn, _⟩ <;> omega
  have := hless ha
  have := hless hb
  have := hless hc
  have := hless hd
  omega

theorem letterEscape_of_simpleEscape? {e : UInt8} (h : StringLiteral.simpleEscape? b = some e) :
    ∃ c, (b, c) ∈ letterEscapes ∧ Utf8.encodeChar c = [e] := by
  simp only [StringLiteral.simpleEscape?, Bool.or_eq_true, decide_eq_true_eq] at h
  split_ifs at h with hself hb hf hn hr ht
  · obtain rfl := Option.some.inj h
    rcases hself with (rfl | rfl) | rfl
    · exact ⟨'"', by decide, rfl⟩
    · exact ⟨'\\', by decide, rfl⟩
    · exact ⟨'/', by decide, rfl⟩
  all_goals
    subst b
    obtain rfl := Option.some.inj h
  · exact ⟨'\x08', by decide, rfl⟩
  · exact ⟨'\x0c', by decide, rfl⟩
  · exact ⟨'\n', by decide, rfl⟩
  · exact ⟨'\r', by decide, rfl⟩
  · exact ⟨'\t', by decide, rfl⟩

namespace StringLiteral

variable {out : Bytes} {state : State} {high : Option Nat}

theorem contents_acc (acc : Bytes) (state : State) (s : Bytes) :
    contents acc state s =
      (contents [] state s).map fun found => (acc.reverse ++ found.1, found.2) := by
  induction s generalizing acc state with
  | nil => rfl
  | cons b s ih =>
    rw [contents, contents]
    split
    · simp [Except.map]
    · cases hstep : step state b with
      | error cause => rfl
      | ok found =>
        simp only
        rw [ih (found.1.reverse ++ acc), ih (found.1.reverse ++ [])]
        cases contents [] found.2 s with
        | error fault => rfl
        | ok more => simp [Except.map]

theorem contents_cons_ok (h : contents [] state (b :: s) = .ok (out, rest))
    (hb : state = .plain → b ≠ Octet.quote) :
    ∃ first state' more, step state b = .ok (first, state') ∧ out = first ++ more ∧
      contents [] state' s = .ok (more, rest) := by
  have hopen : ¬ (decide (state = .plain) && decide (b = Octet.quote)) = true := by
    simpa using hb
  rw [contents, if_neg hopen] at h
  cases hstep : step state b with
  | error cause => simp [hstep] at h
  | ok found =>
    simp only [hstep] at h
    rw [contents_acc] at h
    cases hmore : contents [] found.2 s with
    | error fault => simp [hmore, Except.map] at h
    | ok more =>
      simp only [hmore, Except.map, Except.ok.injEq, Prod.mk.injEq] at h
      obtain ⟨rfl, rfl⟩ := h
      exact ⟨found.1, found.2, more.1, rfl, by simp, hmore⟩

theorem contents_digit {owed : Nat} {value : Option Nat}
    (h : contents [] (.digits (owed + 2) value high) s = .ok (out, rest)) :
    ∃ b s₁, s = b :: s₁ ∧ contents [] (.digits (owed + 1)
      (value.bind fun n => (Octet.hexValue? b).map (n * 16 + ·)) high) s₁ = .ok (out, rest) := by
  cases s with
  | nil => cases h
  | cons b s =>
    obtain ⟨first, state', more, hstep, rfl, hmore⟩ := contents_cons_ok h nofun
    rw [step] at hstep
    simp only [if_pos (show 1 < owed + 2 by omega)] at hstep
    cases hstep
    exact ⟨b, s, rfl, hmore⟩

theorem contents_digits (h : contents [] (.digits 4 (some 0) high) s = .ok (out, rest)) :
    ∃ digits n s₁ first state' more, HexUnit digits n ∧ s = digits ++ s₁ ∧
      unit high n = .ok (first, state') ∧ out = first ++ more ∧
      contents [] state' s₁ = .ok (more, rest) := by
  obtain ⟨a, s₁, rfl, h₁⟩ := contents_digit h
  obtain ⟨b, s₂, rfl, h₂⟩ := contents_digit h₁
  obtain ⟨c, s₃, rfl, h₃⟩ := contents_digit h₂
  cases s₃ with
  | nil => cases h₃
  | cons d s =>
    obtain ⟨first, state', more, hstep, rfl, hmore⟩ := contents_cons_ok h₃ nofun
    simp only [step] at hstep
    split at hstep
    · next hless => exact absurd hless (by decide)
    split at hstep
    · next n hn =>
      simp only [Option.bind_eq_some_iff, Option.map_eq_some_iff] at hn
      obtain ⟨_, ⟨_, ⟨_, ⟨_, hzero, i, hi, rfl⟩, j, hj, rfl⟩, k, hk, rfl⟩, l, hl, rfl⟩ := hn
      cases hzero
      refine ⟨[a, b, c, d], _, s, first, state', more, hexUnit_of_digits hi hj hk hl, rfl, ?_,
        rfl, hmore⟩
      simpa using hstep
    · cases hstep

theorem contents_backslash {high : Nat} (hhigh : 0xd800 ≤ high ∧ high ≤ 0xdbff)
    (h : contents [] (.backslash high) s = .ok (out, rest)) :
    ∃ (c : Char) (digits : Bytes) (low : Nat) (s₁ more : Bytes), HexUnit digits low ∧
      (0xdc00 ≤ low ∧ low ≤ 0xdfff) ∧
      c.toNat = 0x10000 + (high - 0xd800) * 0x400 + (low - 0xdc00) ∧
      s = numberEscape digits ++ s₁ ∧ out = Utf8.encodeChar c ++ more ∧
      contents [] .plain s₁ = .ok (more, rest) := by
  cases s with
  | nil => cases h
  | cons b s =>
    obtain ⟨_, _, _, hstep, rfl, h₁⟩ := contents_cons_ok h nofun
    rw [step] at hstep
    split_ifs at hstep with hbackslash
    cases hstep
    cases s with
    | nil => cases h₁
    | cons e s =>
      obtain ⟨_, _, _, hstep, rfl, h₂⟩ := contents_cons_ok h₁ (by rintro ⟨⟩)
      rw [step] at hstep
      split_ifs at hstep with hletter
      cases hstep
      obtain ⟨digits, low, s₁, first, state', more, hdigits, rfl, hunit, rfl, h₃⟩ :=
        contents_digits h₂
      simp only [unit, Bool.and_eq_true, decide_eq_true_eq] at hunit
      split_ifs at hunit with hlow
      simp only [Except.ok.injEq, Prod.mk.injEq] at hunit
      obtain ⟨hfirst, rfl⟩ := hunit
      obtain ⟨c, hc⟩ := Utf8.exists_char
        (n := 0x10000 + (high - 0xd800) * 0x400 + (low - 0xdc00)) (by omega)
      refine ⟨c, digits, low, s₁, more, hdigits, hlow, hc, ?_, ?_, h₃⟩
      · rw [hbackslash, hletter]
        rfl
      · rw [← hfirst, ← hc, Char.ofNat_toNat, List.nil_append, List.nil_append]

/-- An escape by number writes a character, alone or together with one right behind it. -/
theorem contents_number (h : contents [] (.digits 4 (some 0) none) s = .ok (out, rest)) :
    ∃ (c : Char) (text s₁ more : Bytes), CharText c (numberEscape text) ∧ s = text ++ s₁ ∧
      out = Utf8.encodeChar c ++ more ∧ contents [] .plain s₁ = .ok (more, rest) := by
  obtain ⟨digits, n, s₁, first, state', out₁, hdigits, hs, hunit, hout, h₁⟩ := contents_digits h
  have hless := hdigits.lt
  simp only [unit, Bool.and_eq_true, decide_eq_true_eq] at hunit
  split_ifs at hunit with hlow hhigh
  · simp only [Except.ok.injEq, Prod.mk.injEq] at hunit
    obtain ⟨rfl, rfl⟩ := hunit
    obtain ⟨c, digits', low, s₂, more, hdigits', hlow', hc, hs', hout', h₂⟩ :=
      contents_backslash hhigh h₁
    refine ⟨c, digits ++ numberEscape digits', s₂, more, ?_, ?_, ?_, h₂⟩
    · exact .pair hdigits hdigits' hhigh hlow' hc
    · rw [hs, hs', List.append_assoc]
    · rw [hout, hout', List.nil_append]
  · simp only [Except.ok.injEq, Prod.mk.injEq] at hunit
    obtain ⟨rfl, rfl⟩ := hunit
    obtain ⟨c, hc⟩ := Utf8.exists_char (n := n) (by omega)
    refine ⟨c, digits, s₁, out₁, .unit (hc ▸ hdigits), hs, ?_, h₁⟩
    rw [hout, ← hc, Char.ofNat_toNat]

theorem contents_escape (h : contents [] .escape s = .ok (out, rest)) :
    ∃ (c : Char) (text s₁ more : Bytes), CharText c (Octet.backslash :: text) ∧ s = text ++ s₁ ∧
      out = Utf8.encodeChar c ++ more ∧ contents [] .plain s₁ = .ok (more, rest) := by
  cases s with
  | nil => cases h
  | cons b s =>
    obtain ⟨first, state', out₁, hstep, rfl, h₁⟩ := contents_cons_ok h nofun
    rw [step] at hstep
    split at hstep
    · next hletter =>
      cases hstep
      obtain ⟨c, text, s₁, more, htext, rfl, hout, h₂⟩ := contents_number h₁
      exact ⟨c, b :: text, s₁, more, hletter ▸ htext, rfl, hout, h₂⟩
    · cases hletter : simpleEscape? b with
      | none => simp [hletter] at hstep
      | some e =>
        simp only [hletter, Except.ok.injEq, Prod.mk.injEq] at hstep
        obtain ⟨rfl, rfl⟩ := hstep
        obtain ⟨c, hmem, hc⟩ := letterEscape_of_simpleEscape? hletter
        exact ⟨c, [b], s, out₁, .letter hmem, rfl, by rw [hc], h₁⟩

/-- The octets `s` up to the closing mark give out `out`. -/
inductive Spells (rest : Bytes) : (s out : Bytes) → Prop
  | close : Spells rest (Octet.quote :: rest) []
  | octet {b : UInt8} {s out : Bytes} (hcontrol : 0x20 ≤ b) (hquote : b ≠ Octet.quote)
      (hbackslash : b ≠ Octet.backslash) (hmore : Spells rest s out) :
      Spells rest (b :: s) (b :: out)
  | escape {c : Char} {text s out : Bytes} (hc : CharText c (Octet.backslash :: text))
      (hmore : Spells rest s out) :
      Spells rest (Octet.backslash :: (text ++ s)) (Utf8.encodeChar c ++ out)

theorem contents_spells (h : contents [] .plain s = .ok (out, rest)) : Spells rest s out := by
  induction hlength : s.length using Nat.strongRecOn generalizing s out with
  | ind n ih =>
    subst hlength
    cases s with
    | nil => cases h
    | cons b s =>
      by_cases hquote : b = Octet.quote
      · subst hquote
        cases h
        exact .close
      · obtain ⟨first, state', more, hstep, rfl, hmore⟩ := contents_cons_ok h fun _ => hquote
        rw [step] at hstep
        split_ifs at hstep with hbackslash hcontrol
        · cases hstep
          obtain ⟨c, text, s₁, out₁, hc, rfl, rfl, h₁⟩ := contents_escape hmore
          rw [hbackslash]
          refine .escape hc (ih _ ?_ h₁ rfl)
          simp only [List.length_cons, List.length_append]
          omega
        · cases hstep
          refine .octet (UInt8.not_lt.mp hcontrol) hquote hbackslash (ih _ ?_ hmore rfl)
          exact Nat.lt_succ_self _

theorem Spells.tails {tails : Bytes} (htails : ∀ b ∈ tails, 0x80 ≤ b ∧ b ≤ 0xbf)
    (h : Spells rest s (tails ++ out)) : ∃ s₁, s = tails ++ s₁ ∧ Spells rest s₁ out := by
  induction tails generalizing s with
  | nil => exact ⟨s, rfl, h⟩
  | cons b tails ih =>
    obtain ⟨hb, hmore⟩ := List.forall_mem_cons.mp htails
    generalize hall : b :: tails ++ out = all at h
    cases h with
    | close => cases hall
    | octet _ _ _ h₁ =>
      cases hall
      obtain ⟨s₁, rfl, h₂⟩ := ih hmore h₁
      exact ⟨s₁, rfl, h₂⟩
    | @escape c _ _ _ _ _ =>
      obtain ⟨lead, more, hencode, hlead, _⟩ := Utf8.encodeChar_cons c
      rw [hencode] at hall
      obtain ⟨rfl, _⟩ := List.cons.inj hall
      exact absurd hb hlead

/-- The first character that is given out is written at the beginning. -/
theorem Spells.char {c : Char} (h : Spells rest s (Utf8.encodeChar c ++ out)) :
    ∃ text s₁, CharText c text ∧ s = text ++ s₁ ∧ Spells rest s₁ out := by
  generalize hall : Utf8.encodeChar c ++ out = all at h
  cases h with
  | close => exact absurd (List.append_eq_nil_iff.mp hall).1 (Utf8.encodeChar_ne_nil c)
  | @octet b s out' hcontrol hquote hbackslash h =>
    obtain ⟨lead, tails, hencode, _, htails⟩ := Utf8.encodeChar_cons c
    rw [hencode] at hall
    obtain ⟨rfl, rfl⟩ := List.cons.inj hall
    obtain ⟨s₁, rfl, h₁⟩ := h.tails htails
    refine ⟨Utf8.encodeChar c, s₁, .raw ?_ ?_ ?_, by rw [hencode]; rfl, h₁⟩
    · by_contra hlow
      obtain ⟨hone, hnumber⟩ := Utf8.encodeChar_of_lt (c := c) (by omega)
      rw [hone, List.cons.injEq] at hencode
      rw [← hencode.1, UInt8.le_iff_toNat_le, hnumber] at hcontrol
      exact hlow hcontrol
    · rintro rfl
      exact hquote (List.cons.inj hencode).1.symm
    · rintro rfl
      exact hbackslash (List.cons.inj hencode).1.symm
  | @escape d text s out' hd h =>
    obtain rfl := Utf8.encodeChar_append_inj hall
    rw [List.append_cancel_left hall]
    exact ⟨_, s, hd, rfl, h⟩

theorem Spells.texts {cs : List Char} (h : Spells rest s (cs.flatMap Utf8.encodeChar)) :
    ∃ texts, List.Forall₂ CharText cs texts ∧ s = texts.flatten ++ Octet.quote :: rest := by
  induction cs generalizing s with
  | nil =>
    generalize hall : [].flatMap Utf8.encodeChar = all at h
    cases h with
    | close => exact ⟨[], .nil, rfl⟩
    | octet => cases hall
    | @escape c _ _ _ _ _ =>
      exact absurd (List.append_eq_nil_iff.mp hall.symm).1 (Utf8.encodeChar_ne_nil c)
  | cons c cs ih =>
    rw [List.flatMap_cons] at h
    obtain ⟨text, s₁, htext, rfl, h₁⟩ := h.char
    obtain ⟨texts, htexts, rfl⟩ := ih h₁
    exact ⟨text :: texts, .cons htext htexts, by rw [List.flatten_cons, List.append_assoc]⟩

end StringLiteral

theorem stringText_of_read {t : String} (h : StringLiteral.read s = .ok (t, rest)) :
    ∃ literal, StringText t literal ∧ Octet.quote :: s = literal ++ rest := by
  rw [StringLiteral.read, bind_ok_iff] at h
  obtain ⟨⟨bytes, rest'⟩, hcontents, hdecode⟩ := h
  cases htext : Utf8.decode? bytes with
  | none => simp [htext] at hdecode
  | some text =>
    simp only [htext, Except.ok.injEq, Prod.mk.injEq] at hdecode
    obtain ⟨rfl, rfl⟩ := hdecode
    have hspells := StringLiteral.contents_spells hcontents
    rw [Utf8.eq_encode_of_decode? htext] at hspells
    obtain ⟨texts, htexts, rfl⟩ := hspells.texts
    exact ⟨_, ⟨texts, htexts, rfl⟩, by simp⟩

/-! ### Strings that are passed over -/

theorem CharText.parts {c : Char} {text : Bytes} (h : CharText c text) :
    ∃ parts : List Bytes, (∀ part ∈ parts, LiteralPart part) ∧ text = parts.flatten := by
  cases h with
  | raw hcontrol hquote hbackslash =>
    refine ⟨(Utf8.encodeChar c).map ([·]), ?_, ?_⟩
    · intro part hpart
      obtain ⟨b, hb, rfl⟩ := List.mem_map.mp hpart
      obtain ⟨hb, hb', hb''⟩ := plain_of_mem_encodeChar hcontrol hquote hbackslash hb
      exact .octet hb hb' hb''
    · rw [← List.flatMap_def, List.flatMap_singleton']
  | letter hletter => exact ⟨[_], List.forall_mem_singleton.mpr (.letter hletter), by simp⟩
  | unit hunit => exact ⟨[_], List.forall_mem_singleton.mpr (.unit hunit), by simp⟩
  | pair hunit hunit' _ _ _ =>
    exact ⟨[_, _], List.forall_mem_cons.mpr
      ⟨.unit hunit, List.forall_mem_singleton.mpr (.unit hunit')⟩, by simp⟩

theorem literalParts_of_charTexts {cs : List Char} {texts : List Bytes}
    (h : List.Forall₂ CharText cs texts) :
    ∃ parts : List Bytes, (∀ part ∈ parts, LiteralPart part) ∧ texts.flatten = parts.flatten := by
  induction h with
  | nil => exact ⟨[], List.forall_mem_nil _, rfl⟩
  | cons hc _ ih =>
    obtain ⟨parts, hparts, rfl⟩ := hc.parts
    obtain ⟨more, hmore, hflatten⟩ := ih
    refine ⟨parts ++ more, List.forall_mem_append.mpr ⟨hparts, hmore⟩, ?_⟩
    rw [List.flatten_cons, hflatten, List.flatten_append]

theorem StringText.literal {t : String} (h : StringText t s) : Literal s := by
  obtain ⟨texts, htexts, rfl⟩ := h
  obtain ⟨parts, hparts, hflatten⟩ := literalParts_of_charTexts htexts
  exact ⟨parts, hparts, by rw [hflatten]⟩

namespace Skip

theorem string_digit {owed : Nat} {valid : Bool}
    (h : string (.digits (owed + 2) valid) s = .ok rest) :
    ∃ b s₁, s = b :: s₁ ∧
      string (.digits (owed + 1) (valid && (Octet.hexValue? b).isSome)) s₁ = .ok rest := by
  cases s with
  | nil => cases h
  | cons b s =>
    simp only [string, if_pos (show 1 < owed + 2 by omega)] at h
    exact ⟨b, s, rfl, h⟩

theorem string_digits (h : string (.digits 4 true) s = .ok rest) :
    ∃ digits n s₁, HexUnit digits n ∧ s = digits ++ s₁ ∧ string .plain s₁ = .ok rest := by
  obtain ⟨a, s₁, rfl, h₁⟩ := string_digit h
  obtain ⟨b, s₂, rfl, h₂⟩ := string_digit h₁
  obtain ⟨c, s₃, rfl, h₃⟩ := string_digit h₂
  cases s₃ with
  | nil => cases h₃
  | cons d s =>
    simp only [string, if_neg (show ¬ 1 < 0 + 1 by decide)] at h₃
    split at h₃
    · next hvalid =>
      simp only [Bool.true_and, Bool.and_eq_true, Option.isSome_iff_exists] at hvalid
      obtain ⟨⟨⟨⟨i, hi⟩, j, hj⟩, k, hk⟩, l, hl⟩ := hvalid
      exact ⟨[a, b, c, d], _, s, hexUnit_of_digits hi hj hk hl, rfl, h₃⟩
    · cases h₃

theorem string_escape (h : string .escape s = .ok rest) :
    ∃ text s₁, LiteralPart (Octet.backslash :: text) ∧ s = text ++ s₁ ∧
      string .plain s₁ = .ok rest := by
  cases s with
  | nil => cases h
  | cons b s =>
    rw [string] at h
    split_ifs at h with hletter hsimple
    · obtain ⟨digits, n, s₁, hdigits, rfl, h₁⟩ := string_digits h
      exact ⟨b :: digits, s₁, hletter ▸ .unit hdigits, rfl, h₁⟩
    · obtain ⟨e, he⟩ := Option.isSome_iff_exists.mp hsimple
      obtain ⟨c, hmem, _⟩ := letterEscape_of_simpleEscape? he
      exact ⟨[b], s, .letter hmem, rfl, h⟩

theorem string_parts (h : string .plain s = .ok rest) :
    ∃ parts : List Bytes, (∀ part ∈ parts, LiteralPart part) ∧
      s = parts.flatten ++ Octet.quote :: rest := by
  induction hlength : s.length using Nat.strongRecOn generalizing s with
  | ind n ih =>
    subst hlength
    cases s with
    | nil => cases h
    | cons b s =>
      rw [string] at h
      split_ifs at h with hquote hbackslash hcontrol
      · cases h
        exact ⟨[], List.forall_mem_nil _, by rw [hquote]; rfl⟩
      · obtain ⟨text, s₁, htext, rfl, h₁⟩ := string_escape h
        have hshorter : s₁.length < (b :: (text ++ s₁)).length := by
          rw [List.length_cons, List.length_append]
          omega
        obtain ⟨parts, hparts, rfl⟩ := ih _ hshorter h₁ rfl
        refine ⟨_ :: parts, List.forall_mem_cons.mpr ⟨htext, hparts⟩, ?_⟩
        rw [hbackslash, List.flatten_cons, List.append_assoc, List.cons_append]
      · obtain ⟨parts, hparts, rfl⟩ := ih s.length (Nat.lt_succ_self _) h rfl
        refine ⟨[b] :: parts, List.forall_mem_cons.mpr ⟨?_, hparts⟩, rfl⟩
        exact .octet (UInt8.not_lt.mp hcontrol) hquote hbackslash

theorem literal_of_string (h : string .plain s = .ok rest) :
    ∃ literal, Literal literal ∧ Octet.quote :: s = literal ++ rest := by
  obtain ⟨parts, hparts, rfl⟩ := string_parts h
  exact ⟨_, ⟨parts, hparts, rfl⟩, by simp⟩

end Skip

end GzipStage.Json
