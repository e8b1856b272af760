import GzipStage.Json.Serialize
import GzipStage.Proofs.Decimal.Text
import GzipStage.Proofs.Steps
import Mathlib.Data.List.Forall2

/-! The compact text of a value as a relation.  Printing gives it and never fails. -/
namespace GzipStage.Json

/-- The characters that are written as a backslash and a letter. -/
def namedEscapes : List (Char × Char) :=
  [('"', '"'), ('\\', '\\'), ('\x08', 'b'), ('\x0c', 'f'), ('\n', 'n'), ('\r', 'r'), ('\t', 't')]

inductive Escaped : Char → List Char → Prop
  | named {c letter : Char} (h : (c, letter) ∈ namedEscapes) : Escaped c ['\\', letter]
  | control {c : Char} (hc : c.toNat < 32) (hnamed : ∀ pair ∈ namedEscapes, pair.1 ≠ c) :
      Escaped c
        ['\\', 'u', '0', '0', Nat.digitChar (c.toNat / 16), Nat.digitChar (c.toNat % 16)]
  | plain {c : Char} (hc : 32 ≤ c.toNat) (hquote : c ≠ '"') (hbackslash : c ≠ '\\') :
      Escaped c [c]

def Quotes (s : String) (text : List Char) : Prop :=
  ∃ parts, List.Forall₂ Escaped s.toList parts ∧ text = '"' :: parts.flatten ++ ['"']

/-- The text of a value without blanks outside strings. -/
inductive Laid : Value → List Char → Prop
  | null : Laid .null "null".toList
  | bool (b : Bool) : Laid (.bool b) (if b then "true" else "false").toList
  | integer (n : Int) : Laid (.number (.integer n)) (toString n).toList
  | float {x : Float} {text : List Char} (h : Decimal.Written x.toBits.toNat text) :
      Laid (.number (.float x)) text
  | string {s : String} {text : List Char} (h : Quotes s text) : Laid (.string s) text
  | array {items : List (Value × List Char)} (h : ∀ item ∈ items, Laid item.1 item.2) :
      Laid (.array (items.map Prod.fst))
        ('[' :: [','].intercalate (items.map Prod.snd) ++ [']'])
  | object {members : List ((String × Value) × List Char × List Char)}
      (hnames : ∀ m ∈ members, Quotes m.1.1 m.2.1) (hvalues : ∀ m ∈ members, Laid m.1.2 m.2.2) :
      Laid (.object (members.map Prod.fst))
        ('\x7b' :: [','].intercalate (members.map fun m => m.2.1 ++ ':' :: m.2.2) ++ ['\x7d'])

/-! ### Strings and numbers -/

theorem escaped_escapeChar (c : Char) : Escaped c (escapeChar c) := by
  have hnamed {c letter : Char} (h : (c, letter) ∈ namedEscapes) : Escaped c ['\\', letter] :=
    .named h
  unfold escapeChar
  split
  case h_1 => exact hnamed (by decide)
  case h_2 => exact hnamed (by decide)
  case h_3 => exact hnamed (by decide)
  case h_4 => exact hnamed (by decide)
  case h_5 => exact hnamed (by decide)
  case h_6 => exact hnamed (by decide)
  case h_7 => exact hnamed (by decide)
  case h_8 hquote hbackslash _ _ _ _ _ =>
    split
    case isTrue hc =>
      apply Escaped.control hc
      simp_all [namedEscapes, eq_comm]
    case isFalse hc => exact .plain (Nat.not_lt.mp hc) hquote hbackslash

theorem Escaped.eq_escapeChar {c : Char} {text : List Char} (h : Escaped c text) :
    text = escapeChar c := by
  cases h with
  | named hmem =>
    simp only [namedEscapes, List.mem_cons, Prod.mk.injEq, List.not_mem_nil, or_false] at hmem
    rcases hmem with ⟨rfl, rfl⟩ | ⟨rfl, rfl⟩ | ⟨rfl, rfl⟩ | ⟨rfl, rfl⟩ | ⟨rfl, rfl⟩ | ⟨rfl, rfl⟩ |
      ⟨rfl, rfl⟩
    all_goals rfl
  | control hc hnamed =>
    unfold escapeChar
    split
    case h_8 => exact (if_pos hc).symm
    all_goals exact absurd hnamed (by decide)
  | plain hc hquote hbackslash =>
    unfold escapeChar
    split
    case h_1 => exact absurd rfl hquote
    case h_2 => exact absurd rfl hbackslash
    case h_8 => exact (if_neg (Nat.not_lt.mpr hc)).symm
    all_goals exact absurd hc (by decide)

theorem quotes_iff {s : String} {text : List Char} : Quotes s text ↔ text = renderString s := by
  constructor
  · rintro ⟨parts, hparts, rfl⟩
    have hall : parts = s.toList.map escapeChar := by
      generalize s.toList = cs at hparts
      induction hparts with
      | nil => rfl
      | cons hc _ ih => rw [List.map_cons, ← ih, hc.eq_escapeChar]
    rw [hall, renderString, List.flatMap_def]
  · rintro rfl
    refine ⟨s.toList.map escapeChar, ?_, ?_⟩
    · rw [List.forall₂_map_right_iff, List.forall₂_same]
      intro c _
      exact escaped_escapeChar c
    · rw [renderString, List.flatMap_def]

theorem repr_toList (n : Nat) : (Nat.repr n).toList = Nat.toDigits 10 n := by
  rw [Nat.repr, String.toList_ofList]

theorem render_integer_eq (n : Int) : (Number.integer n).render = (toString n).toList := by
  cases n with
  | ofNat n =>
    have hsign : ¬ Int.ofNat n < 0 := Int.not_lt.mpr (Int.natCast_nonneg n)
    change _ = (Nat.repr n).toList
    rw [Number.render, if_neg hsign, repr_toList]
    rfl
  | negSucc n =>
    change _ = ("-" ++ Nat.repr (n + 1)).toList
    rw [Number.render, if_pos (Int.negSucc_lt_zero n), String.toList_append, repr_toList]
    rfl

/-! ### Lists and objects -/

theorem intercalate_cons (sep text : List Char) (texts : List (List Char)) :
    sep.intercalate (text :: texts) = text ++ texts.flatMap (sep ++ ·) := by
  induction texts generalizing text with
  | nil => simp [List.intercalate]
  | cons next texts ih =>
    rw [List.intercalate_cons_cons, ih, List.flatMap_cons, List.append_assoc, List.append_assoc]

theorem renderItems_eq (vs : List Value) :
    renderItems vs = (vs.map Value.render).flatMap ([','] ++ ·) ++ [']'] := by
  induction vs with
  | nil => rfl
  | cons v vs ih =>
    rw [renderItems, ih, List.map_cons, List.flatMap_cons, List.append_assoc]
    rfl

def renderMember (m : String × Value) : List Char := renderString m.1 ++ ':' :: m.2.render

theorem renderMembers_eq (ms : Members) :
    renderMembers ms = (ms.map renderMember).flatMap ([','] ++ ·) ++ ['\x7d'] := by
  induction ms with
  | nil => rfl
  | cons m ms ih =>
    rw [renderMembers, ih, List.map_cons, List.flatMap_cons, renderMember]
    simp only [List.cons_append, List.append_assoc, List.nil_append]

theorem render_array (vs : List Value) :
    (Value.array vs).render = '[' :: [','].intercalate (vs.map Value.render) ++ [']'] := by
  cases vs with
  | nil => rfl
  | cons v vs =>
    rw [Value.render, renderItems_eq, List.map_cons, intercalate_cons]
    simp only [List.cons_append, List.append_assoc]

theorem render_object (ms : Members) : (Value.object ms).render =
    '\x7b' :: [','].intercalate (ms.map renderMember) ++ ['\x7d'] := by
  cases ms with
  | nil => rfl
  | cons m ms =>
    rw [Value.render, renderMembers_eq, List.map_cons, intercalate_cons, renderMember]
    simp only [List.cons_append, List.append_assoc]

/-- What holds of a value if it holds of its parts, holds of every value. -/
@[elab_as_elim]
theorem Value.by_parts {P : Value → Prop} (v : Value) (null : P .null) (bool : ∀ b, P (.bool b))
    (number : ∀ n, P (.number n)) (string : ∀ s, P (.string s))
    (array : ∀ vs, (∀ v ∈ vs, P v) → P (.array vs))
    (object : ∀ ms : Members, (∀ m ∈ ms, P m.2) → P (.object ms)) : P v := by
  refine @Value.rec P (fun vs => ∀ v ∈ vs, P v) (fun ms => ∀ m ∈ ms, P m.2) (fun m => P m.2)
    null bool number string array object ?_ ?_ ?_ ?_ ?_ v
  · exact List.forall_mem_nil _
  · intro v vs hv hvs
    exact List.forall_mem_cons.mpr ⟨hv, hvs⟩
  · exact List.forall_mem_nil _
  · intro m ms hm hms
    exact List.forall_mem_cons.mpr ⟨hm, hms⟩
  · intro name v hv
    exact hv

theorem laid_render (v : Value) : Laid v v.render := by
  induction v using Value.by_parts with
  | null => exact .null
  | bool b => exact .bool b
  | number n =>
    cases n with
    | integer n =>
      rw [Value.render, render_integer_eq]
      exact .integer n
    | float x => exact .float (Decimal.written_render x)
  | string s => exact .string (quotes_iff.mpr rfl)
  | array vs ih =>
    have hlaid := @Laid.array (vs.map fun v => (v, v.render)) (List.forall_mem_map.mpr ih)
    rw [List.map_map, List.map_map] at hlaid
    rw [render_array]
    simpa only [Function.comp_def, List.map_id'] using hlaid
  | object ms ih =>
    have hlaid := @Laid.object (ms.map fun m => (m, renderString m.1, m.2.render))
      (List.forall_mem_map.mpr fun m _ => quotes_iff.mpr rfl) (List.forall_mem_map.mpr ih)
    rw [List.map_map, List.map_map] at hlaid
    rw [render_object]
    simpa only [Function.comp_def, List.map_id', ← renderMember.eq_def] using hlaid

theorem Laid.eq_render {v : Value} {text : List Char} (h : Laid v text) : text = v.render := by
  induction h with
  | null => rfl
  | bool b => rfl
  | integer n => exact (render_integer_eq n).symm
  | float h => exact h.eq_render
  | string h => exact quotes_iff.mp h
  | @array items _ ih =>
    rw [render_array, List.map_map]
    have hall : items.map Prod.snd = items.map (Value.render ∘ Prod.fst) :=
      List.map_congr_left ih
    rw [hall]
  | @object members hnames _ ih =>
    have hall : members.map (fun m => m.2.1 ++ ':' :: m.2.2) =
        members.map (renderMember ∘ Prod.fst) := by
      apply List.map_congr_left
      intro m hm
      rw [quotes_iff.mp (hnames m hm), ih m hm]
      rfl
    rw [render_object, List.map_map, hall]

/-! ### Printing that may fail -/

theorem serializeItems_eq {vs : List Value} (h : ∀ v ∈ vs, v.serialize = .ok v.render) :
    serializeItems vs = .ok (renderItems vs) := by
  induction vs with
  | nil => rfl
  | cons v vs ih =>
    obtain ⟨hv, hvs⟩ := List.forall_mem_cons.mp h
    rw [serializeItems, hv, ok_bind, ih hvs, ok_bind]
    rfl

theorem serializeMembers_eq {ms : Members} (h : ∀ m ∈ ms, m.2.serialize = .ok m.2.render) :
    serializeMembers ms = .ok (renderMembers ms) := by
  induction ms with
  | nil => rfl
  | cons m ms ih =>
    obtain ⟨hm, hms⟩ := List.forall_mem_cons.mp h
    rw [serializeMembers, Key.serialize, ok_bind, hm, ok_bind, ih hms, ok_bind]
    rfl

theorem Value.serialize_eq (v : Value) : v.serialize = .ok v.render := by
  induction v using Value.by_parts with
  | null => rfl
  | bool b => rfl
  | number n => rfl
  | string s => rfl
  | array vs ih =>
    cases vs with
    | nil => rfl
    | cons v vs =>
      obtain ⟨hv, hvs⟩ := List.forall_mem_cons.mp ih
      rw [serialize, hv, ok_bind, serializeItems_eq hvs, ok_bind]
      rfl
  | object ms ih =>
    cases ms with
    | nil => rfl
    | cons m ms =>
      obtain ⟨hm, hms⟩ := List.forall_mem_cons.mp ih
      rw [serialize, Key.serialize, ok_bind, hm, ok_bind, serializeMembers_eq hms, ok_bind]
      rfl

theorem Members.serialize_eq (ms : Members) : ms.serialize = .ok ms.render := by
  rw [serialize, Value.serialize_eq]
  rfl

/-- An object is printed as it has to be laid out, and printing it never fails. -/
theorem Members.serialize_ok_iff {ms : Members} {text : String} :
    ms.serialize = .ok text ↔ Laid (.object ms) text.toList := by
  rw [serialize_eq, Except.ok.injEq, render]
  constructor
  · rintro rfl
    rw [String.toList_ofList]
    exact laid_render _
  · intro h
    rw [← h.eq_render, String.ofList_toList]

end GzipStage.Json
