import GzipStage.Json.Printer
import GzipStage.Proofs.Json.NumberLiteral
import GzipStage.Proofs.Text.Order

/-! The compact form is a text of its value. -/
namespace GzipStage.Json

variable {α : Type} {levels : Nat}

def separated : List Bytes → Bytes
  | [] => []
  | text :: texts => text ++ texts.flatMap (Octet.comma :: ·)

/-- The texts without blanks outside strings in which the names of every object are in ascending
order of their octets. -/
inductive CompactText : Bytes → Prop
  | null : CompactText (Utf8.encode "null")
  | bool (b : Bool) : CompactText (Utf8.encode (if b then "true" else "false"))
  | number {s : Bytes} (hs : NumberText s) : CompactText s
  | string {t : String} {s : Bytes} (hs : StringText t s) : CompactText s
  | list {texts : List Bytes} (htexts : ∀ text ∈ texts, CompactText text) :
      CompactText (inBrackets (separated texts))
  | object {members : List (String × Bytes × Bytes)}
      (hnames : ∀ m ∈ members, StringText m.1 m.2.1)
      (horder : members.Pairwise fun m n => Utf8.encode m.1 < Utf8.encode n.1)
      (hvalues : ∀ m ∈ members, CompactText m.2.2) :
      CompactText (inBraces (separated (members.map fun m => m.2.1 ++ Octet.colon :: m.2.2)))

theorem row_separated {P : α → Bytes → Prop} {xs : List α} {texts : List Bytes}
    (h : List.Forall₂ P xs texts) : Row P xs (separated texts) := by
  have htail {xs : List α} {texts : List Bytes} (h : List.Forall₂ P xs texts) :
      RowTail P xs (texts.flatMap (Octet.comma :: ·)) := by
    induction h with
    | nil => exact .done blank_nil
    | cons hx _ ih => exact .item blank_nil blank_nil hx ih
  cases h with
  | nil => exact .none blank_nil
  | cons hx hxs => exact .first blank_nil hx (htail hxs)

/-! ### Strings -/

def literal (t : String) : Bytes := (renderString t).flatMap Utf8.encodeChar

theorem hexDigit_encode {d : Nat} (h : d < 16) :
    ∃ b, Utf8.encodeChar (hexDigit d) = [b] ∧ HexDigit b d := by
  interval_cases d <;> exact ⟨_, rfl, by decide⟩

theorem charText_escapeChar (c : Char) :
    CharText c ((escapeChar c).flatMap Utf8.encodeChar) := by
  have hletter {b : UInt8} {c : Char} (h : (b, c) ∈ letterEscapes) {s : Bytes}
      (hs : s = [Octet.backslash, b]) : CharText c s := hs ▸ .letter h
  unfold escapeChar
  split
  case h_1 => exact hletter (b := Octet.quote) (by decide) rfl
  case h_2 => exact hletter (b := Octet.backslash) (by decide) rfl
  case h_3 => exact hletter (b := 0x62) (by decide) rfl
  case h_4 => exact hletter (b := 0x66) (by decide) rfl
  case h_5 => exact hletter (b := 0x6e) (by decide) rfl
  case h_6 => exact hletter (b := 0x72) (by decide) rfl
  case h_7 => exact hletter (b := 0x74) (by decide) rfl
  case h_8 hquote hbackslash _ _ _ _ _ =>
    split
    case isTrue hcontrol =>
      obtain ⟨high, hhigh, hhigh'⟩ := hexDigit_encode (d := c.toNat / 16) (by omega)
      obtain ⟨low, hlow, hlow'⟩ := hexDigit_encode (Nat.mod_lt c.toNat (show 0 < 16 by decide))
      have hzero : HexDigit 0x30 0 := by decide
      have hvalue : ((0 * 16 + 0) * 16 + c.toNat / 16) * 16 + c.toNat % 16 = c.toNat := by omega
      have hunit : HexUnit [0x30, 0x30, high, low] c.toNat :=
        ⟨rfl, [0, 0, c.toNat / 16, c.toNat % 16],
          .cons hzero (.cons hzero (.cons hhigh' (.cons hlow' .nil))), hvalue⟩
      simp only [List.flatMap_cons, List.flatMap_nil, hhigh, hlow]
      exact .unit hunit
    case isFalse hcontrol =>
      rw [List.flatMap_singleton]
      exact .raw (Nat.not_lt.mp hcontrol) hquote hbackslash

theorem stringText_literal (t : String) : StringText t (literal t) := by
  refine ⟨t.toList.map fun c => (escapeChar c).flatMap Utf8.encodeChar, ?_, ?_⟩
  · rw [List.forall₂_map_right_iff, List.forall₂_same]
    exact fun c _ => charText_escapeChar c
  · rw [literal, renderString, List.cons_append, List.flatMap_cons, List.flatMap_append,
      List.flatMap_assoc, ← List.flatMap_def]
    rfl

/-! ### Numbers -/

theorem toDigits_encode (n : Nat) :
    (Nat.toDigits 10 n).flatMap Utf8.encodeChar = decimalDigits n := by
  have hdigit (c : Char) (hc : c ∈ Nat.toDigits 10 n) : Utf8.encodeChar c = [Octet.ofChar c] := by
    have h := Nat.isDigit_of_mem_toDigits (by decide) (by decide) hc
    rw [Char.isDigit, Bool.and_eq_true, decide_eq_true_eq, decide_eq_true_eq] at h
    have hnine : c.toNat ≤ 57 := h.2
    exact (Utf8.encodeChar_of_lt (by omega)).1
  rw [List.flatMap_congr hdigit, decimalDigits, ← List.map_eq_flatMap]

theorem render_integer (n : Int) :
    (Number.integer n).render.flatMap Utf8.encodeChar = decimal n := by
  rw [Number.render, List.flatMap_append, toDigits_encode, decimal]
  split <;> rfl

theorem numberText_decimal (n : Int) : NumberText (decimal n) := by
  obtain ⟨b, ds, hdigits, hzero, hall, _⟩ := decimalDigits_spell n.natAbs
  have hwhole : Whole (decimalDigits n.natAbs) := by
    rw [hdigits]
    refine ⟨⟨List.cons_ne_nil _ _, hall⟩, fun hb => ?_⟩
    cases Option.some.inj hb
    rw [(hzero rfl).2]
  rw [decimal]
  split
  · exact ⟨[Octet.minus], _, [], [], by simp, hwhole, .inl rfl, .inl rfl, by simp⟩
  · exact ⟨[], _, [], [], by simp, hwhole, .inl rfl, .inl rfl, by simp⟩

/-! ### Values -/

def Value.text (v : Value) : Bytes := Utf8.encode v.compact

theorem Value.text_eq (v : Value) : v.text = v.render.flatMap Utf8.encodeChar := by
  rw [text, compact, Utf8.encode, String.toList_ofList]

def memberText (m : String × Value) : Bytes := literal m.1 ++ Octet.colon :: m.2.text

theorem renderItems_encode (vs : List Value) :
    (renderItems vs).flatMap Utf8.encodeChar =
      (vs.map Value.text).flatMap (Octet.comma :: ·) ++ [Octet.closeBracket] := by
  induction vs with
  | nil => rfl
  | cons v vs ih =>
    rw [renderItems, List.cons_append, List.flatMap_cons, List.flatMap_append, ih, ← v.text_eq,
      List.map_cons, List.flatMap_cons, List.append_assoc]
    rfl

theorem renderMembers_encode (ms : Members) :
    (renderMembers ms).flatMap Utf8.encodeChar =
      (ms.map memberText).flatMap (Octet.comma :: ·) ++ [Octet.closeBrace] := by
  induction ms with
  | nil => rfl
  | cons m ms ih =>
    obtain ⟨name, v⟩ := m
    rw [renderMembers, List.map_cons, List.flatMap_cons, memberText, literal, v.text_eq]
    simp only [List.cons_append, List.flatMap_cons, List.flatMap_append, List.append_assoc, ih]
    rfl

theorem text_array (vs : List Value) :
    (Value.array vs).text = inBrackets (separated (vs.map Value.text)) := by
  rw [Value.text_eq]
  cases vs with
  | nil => rfl
  | cons v vs =>
    rw [Value.render, List.cons_append, List.flatMap_cons, List.flatMap_append,
      renderItems_encode, ← v.text_eq, List.map_cons, separated, inBrackets, List.append_assoc]
    rfl

theorem text_object (ms : Members) :
    (Value.object ms).text = inBraces (separated (ms.map memberText)) := by
  rw [Value.text_eq]
  cases ms with
  | nil => rfl
  | cons m ms =>
    obtain ⟨name, v⟩ := m
    rw [Value.render, List.map_cons, separated, memberText, literal, v.text_eq, inBraces]
    simp only [List.cons_append, List.flatMap_cons, List.flatMap_append, List.append_assoc,
      renderMembers_encode]
    rfl

theorem text_bool (b : Bool) :
    (Value.bool b).text = Utf8.encode (if b then "true" else "false") := by
  rw [Value.text_eq, Value.render]
  rfl

theorem text_integer (n : Int) : (Value.number (.integer n)).text = decimal n := by
  rw [Value.text_eq, Value.render, render_integer]

theorem text_string (t : String) : (Value.string t).text = literal t := by
  rw [Value.text_eq, Value.render, literal]

theorem Value.Fits.spelled {v : Value} (h : v.Fits levels) : v.Spelled v.text := by
  induction h with
  | null => exact .null
  | bool b =>
    rw [text_bool]
    exact .bool b
  | @integer _ n =>
    rw [text_integer]
    exact .integer n
  | string t =>
    rw [text_string]
    exact .string (stringText_literal t)
  | @list _ vs _ ih =>
    have hvs : vs = (vs.map fun v => (v, v.text)).map Prod.fst := by
      rw [List.map_map]
      exact (List.map_id vs).symm
    rw [text_array]
    nth_rewrite 1 [hvs]
    refine .list (row_separated ?_) ?_
    · rw [List.forall₂_map_left_iff, List.forall₂_map_right_iff, List.forall₂_same]
      exact fun _ _ => rfl
    · exact List.forall_mem_map.mpr ih
  | @object _ ms _ _ ih =>
    rw [text_object]
    have hms : (ms.map fun m => (m, m.2.text)).map Prod.fst = ms := by
      rw [List.map_map]
      exact List.map_id ms
    refine .object (.of_eq hms) (row_separated ?_) ?_
    · rw [List.forall₂_map_left_iff, List.forall₂_map_right_iff, List.forall₂_same]
      exact fun m _ => ⟨literal m.1, stringText_literal m.1, [], [], blank_nil, blank_nil, rfl⟩
    · exact List.forall_mem_map.mpr ih

theorem Value.Fits.compactText {v : Value} (h : v.Fits levels) : CompactText v.text := by
  induction h with
  | null => exact .null
  | bool b =>
    rw [text_bool]
    exact .bool b
  | @integer _ n =>
    rw [text_integer]
    exact .number (numberText_decimal n)
  | string t =>
    rw [text_string]
    exact .string (stringText_literal t)
  | @list _ vs _ ih =>
    rw [text_array]
    exact .list (List.forall_mem_map.mpr ih)
  | @object _ ms hnames _ ih =>
    have hmembers : ms.map memberText = (ms.map fun m => (m.1, literal m.1, m.2.text)).map
        fun m => m.2.1 ++ Octet.colon :: m.2.2 := by
      rw [List.map_map]
      rfl
    rw [text_object, hmembers]
    refine .object ?_ ?_ ?_
    · exact List.forall_mem_map.mpr fun m _ => stringText_literal m.1
    · exact List.pairwise_map.mpr (hnames.imp Utf8.encode_lt)
    · exact List.forall_mem_map.mpr ih

end GzipStage.Json
