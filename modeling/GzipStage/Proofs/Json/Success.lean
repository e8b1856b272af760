import GzipStage.Json.Record
import GzipStage.Proofs.Json.Skip
import Mathlib.Data.List.TakeWhile

/-! What a reader has done when it succeeds. -/
namespace GzipStage.Json

variable {α σ : Type} {s rest : Bytes} {levels fuel : Nat}

theorem isBlank_iff {b : UInt8} :
    isBlank b = true ↔ b ∈ [Octet.space, Octet.tab, Octet.lineFeed, Octet.carriageReturn] := by
  simp only [isBlank, Bool.or_eq_true, decide_eq_true_eq, List.mem_cons, List.not_mem_nil, or_false]
  tauto

theorem skipBlanks_eq_nil_iff : skipBlanks s = [] ↔ Blank s := by
  rw [skipBlanks, List.dropWhile_eq_nil_iff]
  exact forall₂_congr fun b _ => isBlank_iff

/-! ### Frames -/

theorem readColon_ok_iff : readColon s = .ok rest ↔ skipBlanks s = Octet.colon :: rest := by
  rw [readColon]
  cases skipBlanks s with
  | nil => simp
  | cons b s₁ => by_cases hb : b = Octet.colon <;> simp [hb]

theorem closeObject_ok_iff :
    closeObject s = .ok rest ↔ skipBlanks s = Octet.closeBrace :: rest := by
  rw [closeObject]
  cases skipBlanks s with
  | nil => simp
  | cons b s₁ => by_cases hb : b = Octet.closeBrace <;> simp [hb]

theorem closeList_ok_iff :
    closeList s = .ok rest ↔ skipBlanks s = Octet.closeBracket :: rest := by
  rw [closeList]
  cases skipBlanks s with
  | nil => simp
  | cons b s₁ =>
    by_cases hb : b = Octet.closeBracket
    · simp [hb]
    · -- A comma only makes for another reason to fail.
      simp only [hb, if_false, List.cons.injEq, false_and, iff_false]
      cases skipBlanks s₁ <;> split <;> exact nofun

/-! ### Loops -/

theorem items_ok_iff {read : Bytes → Except Fault (α × Bytes)} {acc xs : List α} :
    items read (fuel + 1) acc s = .ok (xs, rest) ↔
      (nextItem? acc.isEmpty s = .ok none ∧ acc = xs ∧ s = rest) ∨
        ∃ s₁ x s₂, nextItem? acc.isEmpty s = .ok (some s₁) ∧ read s₁ = .ok (x, s₂) ∧
          items read fuel (x :: acc) s₂ = .ok (xs, rest) := by
  rw [items, bind_ok_iff]
  constructor
  · rintro ⟨next, hnext, h⟩
    cases next with
    | none =>
      cases h
      exact .inl ⟨hnext, rfl, rfl⟩
    | some s₁ =>
      obtain ⟨⟨x, s₂⟩, hread, h⟩ := bind_ok_iff.mp h
      exact .inr ⟨s₁, x, s₂, hnext, hread, h⟩
  · rintro (⟨hnext, rfl, rfl⟩ | ⟨s₁, x, s₂, hnext, hread, h⟩)
    · exact ⟨_, hnext, rfl⟩
    · exact ⟨_, hnext, bind_ok_iff.mpr ⟨_, hread, h⟩⟩

theorem members_ok_iff {read : String → σ → Bytes → Except Fault (σ × Bytes)} {first : Bool}
    {x z : σ} :
    members read (fuel + 1) first x s = .ok (z, rest) ↔
      (nextName? first s = .ok none ∧ x = z ∧ s = rest) ∨
        ∃ name s₁ y s₂, nextName? first s = .ok (some (name, s₁)) ∧
          read name x s₁ = .ok (y, s₂) ∧ members read fuel false y s₂ = .ok (z, rest) := by
  rw [members, bind_ok_iff]
  constructor
  · rintro ⟨next, hnext, h⟩
    cases next with
    | none =>
      cases h
      exact .inl ⟨hnext, rfl, rfl⟩
    | some found =>
      obtain ⟨⟨y, s₂⟩, hread, h⟩ := bind_ok_iff.mp h
      exact .inr ⟨found.1, found.2, y, s₂, hnext, hread, h⟩
  · rintro (⟨hnext, rfl, rfl⟩ | ⟨name, s₁, y, s₂, hnext, hread, h⟩)
    · exact ⟨_, hnext, rfl⟩
    · exact ⟨_, hnext, bind_ok_iff.mpr ⟨_, hread, h⟩⟩

theorem positional_ok_iff {field : Field σ} {fields : List (Field σ)} {first : Bool} {x z : σ} :
    Record.positional levels (field :: fields) first x s = .ok (z, rest) ↔
      (nextItem? first s = .ok none ∧ x = z ∧ s = rest) ∨
        ∃ s₁ y s₂, nextItem? first s = .ok (some s₁) ∧ field.read levels x s₁ = .ok (y, s₂) ∧
          Record.positional levels fields false y s₂ = .ok (z, rest) := by
  rw [Record.positional, bind_ok_iff]
  constructor
  · rintro ⟨next, hnext, h⟩
    cases next with
    | none =>
      cases h
      exact .inl ⟨hnext, rfl, rfl⟩
    | some s₁ =>
      obtain ⟨⟨y, s₂⟩, hread, h⟩ := bind_ok_iff.mp h
      exact .inr ⟨s₁, y, s₂, hnext, hread, h⟩
  · rintro (⟨hnext, rfl, rfl⟩ | ⟨s₁, y, s₂, hnext, hread, h⟩)
    · exact ⟨_, hnext, rfl⟩
    · exact ⟨_, hnext, bind_ok_iff.mpr ⟨_, hread, h⟩⟩

theorem field_ok_iff {name : String} {reader : Reader α} {set : σ → α → σ} {x y : σ} :
    (Field.of name reader set).read levels x s = .ok (y, rest) ↔
      ∃ a, reader levels s = .ok (a, rest) ∧ set x a = y := by
  simp only [Field.of, bind_ok_iff, Prod.exists, Except.ok.injEq, Prod.mk.injEq]
  constructor
  · rintro ⟨a, _, hread, hset, rfl⟩
    exact ⟨a, hread, hset⟩
  · rintro ⟨a, hread, hset⟩
    exact ⟨a, rest, hread, hset, rfl⟩

/-- One member is either of no field and passed over, or of a field that has not been read. -/
theorem member_ok_iff {fields : List (Field σ)} {name : String} {x y : σ}
    {seen seen' : List String} :
    Record.member fields levels name (x, seen) s = .ok ((y, seen'), rest) ↔
      (fields.find? (·.name = name) = none ∧
        ∃ s₁, readColon s = .ok s₁ ∧ Skip.value s₁ = .ok rest ∧ x = y ∧ seen = seen') ∨
      ∃ field, fields.find? (·.name = name) = some field ∧ name ∉ seen ∧
        ∃ s₁, readColon s = .ok s₁ ∧ field.read levels x s₁ = .ok (y, rest) ∧
          name :: seen = seen' := by
  rw [Record.member]
  cases hfind : fields.find? (·.name = name) with
  | none =>
    simp [bind_ok_iff]
  | some field =>
    by_cases hseen : name ∈ seen
    · simp [hseen]
    · simp [hseen, bind_ok_iff]

/-! ### Values and records -/

theorem openBracket_ne_openBrace : Octet.openBracket ≠ Octet.openBrace := by decide

theorem record_ok_iff {name : String} {fields : List (Field σ)} {initial x : σ} :
    record name fields initial levels s = .ok (x, rest) ↔
      ∃ below, levels = below + 1 ∧
        ((∃ s₁ s₂, skipBlanks s = Octet.openBracket :: s₁ ∧
          Record.positional below fields true initial s₁ = .ok (x, s₂) ∧
          closeList s₂ = .ok rest) ∨
        ∃ s₁ seen s₂, skipBlanks s = Octet.openBrace :: s₁ ∧
          members (Record.member fields below) (s₁.length + 1) true (initial, []) s₁ =
            .ok ((x, seen), s₂) ∧ closeObject s₂ = .ok rest) := by
  rw [record]
  cases hs : skipBlanks s with
  | nil => simp
  | cons b s₁ =>
    by_cases hlist : b = Octet.openBracket
    · subst hlist
      cases levels <;>
        simp [deeper, bind_ok_iff, pure, Except.pure, openBracket_ne_openBrace]
    · by_cases hobject : b = Octet.openBrace
      · subst hobject
        cases levels <;>
          simp [deeper, bind_ok_iff, pure, Except.pure, openBracket_ne_openBrace.symm]
      · simp [hlist, hobject]

def readInto (read : Bytes → Except Fault (Value × Bytes)) (name : String) (ms : Members)
    (s : Bytes) : Except Fault (Members × Bytes) := do
  let s ← readColon s
  let (v, s) ← read s
  .ok (Members.insert name v ms, s)

theorem memberMap_ok_iff {read : Bytes → Except Fault (Value × Bytes)} {ms : Members} :
    memberMap read s = .ok (ms, rest) ↔
      ∃ s₁, members (readInto read) (s.length + 1) true [] s = .ok (ms, s₁) ∧
        closeObject s₁ = .ok rest := by
  rw [memberMap, bind_ok_iff]
  simp only [bind_ok_iff, Prod.exists, pure, Except.pure, Except.ok.injEq, Prod.mk.injEq]
  constructor
  · rintro ⟨_, s₁, hmembers, _, hclose, rfl, rfl⟩
    exact ⟨s₁, hmembers, hclose⟩
  · rintro ⟨s₁, hmembers, hclose⟩
    exact ⟨ms, s₁, hmembers, rest, hclose, rfl, rfl⟩

/-- A value is a list or an object one level further down, or something else. -/
theorem value_ok_iff {v : Value} :
    value levels s = .ok (v, rest) ↔
      (∃ below s₁ xs s₂, levels = below + 1 ∧ skipBlanks s = Octet.openBracket :: s₁ ∧
        items (value below) (s₁.length + 1) [] s₁ = .ok (xs, s₂) ∧ closeList s₂ = .ok rest ∧
          .array xs.reverse = v) ∨
      (∃ below s₁ ms, levels = below + 1 ∧ skipBlanks s = Octet.openBrace :: s₁ ∧
        memberMap (value below) s₁ = .ok (ms, rest) ∧ .object ms = v) ∨
      ∃ b s₁, skipBlanks s = b :: s₁ ∧ b ≠ Octet.openBracket ∧ b ≠ Octet.openBrace ∧
        scalar b s₁ = .ok (v, rest) := by
  rw [value]
  cases hs : skipBlanks s with
  | nil => simp
  | cons b s₁ =>
    by_cases hlist : b = Octet.openBracket
    · subst hlist
      cases levels with
      | zero => simp
      | succ below =>
        simp [bind_ok_iff, pure, Except.pure, openBracket_ne_openBrace]
    · by_cases hobject : b = Octet.openBrace
      · subst hobject
        cases levels with
        | zero => simp
        | succ below =>
          simp [bind_ok_iff, pure, Except.pure, openBracket_ne_openBrace.symm]
      · simp [hlist, hobject]

theorem map_ok_iff {ms : Members} :
    map levels s = .ok (ms, rest) ↔
      ∃ below s₁, levels = below + 1 ∧ skipBlanks s = Octet.openBrace :: s₁ ∧
        memberMap (value below) s₁ = .ok (ms, rest) := by
  rw [map]
  cases hs : skipBlanks s with
  | nil => simp
  | cons b s₁ =>
    by_cases hobject : b = Octet.openBrace
    · subst hobject
      cases levels <;> simp [deeper]
    · simp [hobject]

theorem string_ok_iff {t : String} :
    string levels s = .ok (t, rest) ↔
      ∃ s₁, skipBlanks s = Octet.quote :: s₁ ∧ StringLiteral.read s₁ = .ok (t, rest) := by
  rw [string]
  cases hs : skipBlanks s with
  | nil => simp
  | cons b s₁ =>
    by_cases hquote : b = Octet.quote
    · subst hquote
      simp
    · simp [hquote]

theorem document_ok_iff {read : Reader α} {x : α} :
    document read s = .ok x ↔ ∃ rest, read maxLevels s = .ok (x, rest) ∧ Blank rest := by
  simp only [← skipBlanks_eq_nil_iff, document]
  cases hread : read maxLevels s with
  | error e => simp [bind, Except.bind, Except.mapError]
  | ok found =>
    obtain ⟨y, tail⟩ := found
    cases htail : skipBlanks tail with
    | nil => simp [bind, Except.bind, Except.mapError, htail]
    | cons b tail' => simp [bind, Except.bind, Except.mapError, htail]

end GzipStage.Json
