import GzipStage.Proofs.Json.Value
import GzipStage.Text.Utf8
import Mathlib.Data.List.Forall2

/-! The texts of JSON. -/
namespace GzipStage.Json

def Blank (s : Bytes) : Prop :=
  ∀ b ∈ s, b ∈ [Octet.space, Octet.tab, Octet.lineFeed, Octet.carriageReturn]

instance (s : Bytes) : Decidable (Blank s) := List.decidableBAll _ s

theorem blank_nil : Blank [] := nofun

theorem blank_space : Blank [Octet.space] := by simp [Blank]

section Rows

variable {α : Type} (P : α → Bytes → Prop)

/-- The items that follow the first, a comma before each, and the blanks around them. -/
inductive RowTail : List α → Bytes → Prop
  | done {blank : Bytes} (hblank : Blank blank) : RowTail [] blank
  | item {x : α} {xs : List α} {before after text rest : Bytes} (hbefore : Blank before)
      (hafter : Blank after) (htext : P x text) (htail : RowTail xs rest) :
      RowTail (x :: xs) (before ++ Octet.comma :: (after ++ (text ++ rest)))

/-- What stands between two brackets: items with commas between them and blanks around them. -/
inductive Row : List α → Bytes → Prop
  | none {blank : Bytes} (hblank : Blank blank) : Row [] blank
  | first {x : α} {xs : List α} {before text rest : Bytes} (hbefore : Blank before)
      (htext : P x text) (htail : RowTail P xs rest) : Row (x :: xs) (before ++ (text ++ rest))

end Rows

def inBrackets (body : Bytes) : Bytes := Octet.openBracket :: (body ++ [Octet.closeBracket])

def inBraces (body : Bytes) : Bytes := Octet.openBrace :: (body ++ [Octet.closeBrace])

/-- A name, a colon and a value, with blanks around the colon. -/
def Member (name value s : Bytes) : Prop :=
  ∃ before after, Blank before ∧ Blank after ∧
    s = name ++ (before ++ Octet.colon :: (after ++ value))

/-! ### Strings -/

def HexDigit (b : UInt8) (d : Nat) : Prop :=
  (d < 10 ∧ b.toNat = 0x30 + d) ∨
    10 ≤ d ∧ d < 16 ∧ (b.toNat = 0x41 + (d - 10) ∨ b.toNat = 0x61 + (d - 10))

instance (b : UInt8) (d : Nat) : Decidable (HexDigit b d) := inferInstanceAs (Decidable (_ ∨ _))

def HexUnit (s : Bytes) (n : Nat) : Prop :=
  s.length = 4 ∧ ∃ digits, List.Forall₂ HexDigit s digits ∧
    digits.foldl (fun n d => n * 16 + d) 0 = n

/-- The octets that follow a backslash, with the characters they stand for. -/
def letterEscapes : List (UInt8 × Char) :=
  [(Octet.quote, '"'), (Octet.backslash, '\\'), (Octet.slash, '/'), (0x62, '\x08'),
    (0x66, '\x0c'), (0x6e, '\n'), (0x72, '\r'), (0x74, '\t')]

def numberEscape (digits : Bytes) : Bytes := Octet.backslash :: 0x75 :: digits

/-- The ways to write a character inside a string. -/
inductive CharText : Char → Bytes → Prop
  | raw {c : Char} (hcontrol : 0x20 ≤ c.toNat) (hquote : c ≠ '"') (hbackslash : c ≠ '\\') :
      CharText c (Utf8.encodeChar c)
  | letter {b : UInt8} {c : Char} (hletter : (b, c) ∈ letterEscapes) :
      CharText c [Octet.backslash, b]
  | unit {c : Char} {digits : Bytes} (hunit : HexUnit digits c.toNat) :
      CharText c (numberEscape digits)
  | pair {c : Char} {high low : Nat} {digits digits' : Bytes} (hunit : HexUnit digits high)
      (hunit' : HexUnit digits' low) (hhigh : 0xd800 ≤ high ∧ high ≤ 0xdbff)
      (hlow : 0xdc00 ≤ low ∧ low ≤ 0xdfff)
      (hc : c.toNat = 0x10000 + (high - 0xd800) * 0x400 + (low - 0xdc00)) :
      CharText c (numberEscape digits ++ numberEscape digits')

def StringText (t : String) (s : Bytes) : Prop :=
  ∃ texts, List.Forall₂ CharText t.toList texts ∧
    s = Octet.quote :: (texts.flatten ++ [Octet.quote])

def isPlain (c : Char) : Bool := 0x20 ≤ c.toNat && c ≠ '"' && c ≠ '\\'

theorem charText_plain {c : Char} (h : isPlain c = true) : CharText c (Utf8.encodeChar c) := by
  simp only [isPlain, Bool.and_eq_true, decide_eq_true_eq] at h
  exact .raw h.1.1 h.1.2 h.2

/-- A string between its marks, every character as it is. -/
def quoted (t : String) : Bytes := Octet.quote :: (Utf8.encode t ++ [Octet.quote])

theorem stringText_quoted {t : String} (h : t.toList.all isPlain = true) :
    StringText t (quoted t) := by
  refine ⟨t.toList.map Utf8.encodeChar, List.forall₂_map_right_iff.mpr ?_, rfl⟩
  exact List.forall₂_same.mpr fun c hc => charText_plain (List.all_eq_true.mp h c hc)

/-- A part of a string that need not stand for a character. -/
inductive LiteralPart : Bytes → Prop
  | octet {b : UInt8} (hcontrol : 0x20 ≤ b) (hquote : b ≠ Octet.quote)
      (hbackslash : b ≠ Octet.backslash) : LiteralPart [b]
  | letter {b : UInt8} {c : Char} (hletter : (b, c) ∈ letterEscapes) :
      LiteralPart [Octet.backslash, b]
  | unit {digits : Bytes} {n : Nat} (hunit : HexUnit digits n) : LiteralPart (numberEscape digits)

def Literal (s : Bytes) : Prop :=
  ∃ parts : List Bytes, (∀ part ∈ parts, LiteralPart part) ∧
    s = Octet.quote :: (parts.flatten ++ [Octet.quote])

/-! ### Numbers -/

def decimalDigits (n : Nat) : Bytes := (Nat.toDigits 10 n).map Octet.ofChar

/-- The decimal digits of an integer, after a minus sign if it is negative. -/
def decimal (n : Int) : Bytes :=
  if n < 0 then Octet.minus :: decimalDigits n.natAbs else decimalDigits n.natAbs

def Digits (s : Bytes) : Prop := s ≠ [] ∧ ∀ b ∈ s, Octet.isDigit b = true

def Whole (s : Bytes) : Prop := Digits s ∧ (s.head? = some Octet.zero → s = [Octet.zero])

def Fraction (s : Bytes) : Prop := s = [] ∨ ∃ digits, Digits digits ∧ s = Octet.dot :: digits

/-- A letter, a sign if there is one, and digits, or nothing. -/
def Exponent (s : Bytes) : Prop :=
  s = [] ∨ ∃ letter sign digits, letter ∈ [0x65, 0x45] ∧ sign ∈ [[], [Octet.plus], [Octet.minus]] ∧
    Digits digits ∧ s = letter :: (sign ++ digits)

def NumberText (s : Bytes) : Prop :=
  ∃ sign whole fraction exponent, sign ∈ [[], [Octet.minus]] ∧ Whole whole ∧ Fraction fraction ∧
    Exponent exponent ∧ s = sign ++ (whole ++ (fraction ++ exponent))

/-! ### Values -/

inductive Text : Bytes → Prop
  | null : Text (Utf8.encode "null")
  | bool (b : Bool) : Text (Utf8.encode (if b then "true" else "false"))
  | number {s : Bytes} (hs : NumberText s) : Text s
  | string {s : Bytes} (hs : Literal s) : Text s
  | list {items : List Bytes} {body : Bytes} (hbody : Row Eq items body)
      (hitems : ∀ item ∈ items, Text item) : Text (inBrackets body)
  | object {members : List (Bytes × Bytes)} {body : Bytes}
      (hbody : Row (fun m => Member m.1 m.2) members body) (hnames : ∀ m ∈ members, Literal m.1)
      (hvalues : ∀ m ∈ members, Text m.2) : Text (inBraces body)

def NamedMember (name : String) (value s : Bytes) : Prop :=
  ∃ literal, StringText name literal ∧ Member literal value s

theorem namedMember_quoted (t : String) (value : Bytes) (h : t.toList.all isPlain = true) :
    NamedMember t value (quoted t ++ Octet.colon :: value) :=
  ⟨quoted t, stringText_quoted h, [], [], blank_nil, blank_nil, rfl⟩

/-- The ways to write a value, in which integers have no point or exponent. -/
inductive Value.Spelled : Value → Bytes → Prop
  | null : Value.null.Spelled (Utf8.encode "null")
  | bool (b : Bool) : (Value.bool b).Spelled (Utf8.encode (if b then "true" else "false"))
  | integer (n : Int) : (Value.number (.integer n)).Spelled (decimal n)
  | string {t : String} {s : Bytes} (hs : StringText t s) : (Value.string t).Spelled s
  | list {entries : List (Value × Bytes)} {body : Bytes}
      (hbody : Row (fun e text => e.2 = text) entries body)
      (hitems : ∀ e ∈ entries, e.1.Spelled e.2) :
      (Value.array (entries.map Prod.fst)).Spelled (inBrackets body)
  | object {entries : List ((String × Value) × Bytes)} {ms : Members} {body : Bytes}
      (horder : (entries.map Prod.fst).Perm ms)
      (hbody : Row (fun e => NamedMember e.1.1 e.2) entries body)
      (hvalues : ∀ e ∈ entries, e.1.2.Spelled e.2) : (Value.object ms).Spelled (inBraces body)

/-- Values that nest at most `levels` lists and objects, whose numbers are integers in the 64-bit
ranges and whose objects have their names in order. -/
inductive Value.Fits : Nat → Value → Prop
  | null {levels : Nat} : Value.null.Fits levels
  | bool {levels : Nat} (b : Bool) : (Value.bool b).Fits levels
  | integer {levels : Nat} {n : Int} (hleast : -0x8000000000000000 ≤ n)
      (hgreatest : n ≤ 0xffffffffffffffff) : (Value.number (.integer n)).Fits levels
  | string {levels : Nat} (t : String) : (Value.string t).Fits levels
  | list {levels : Nat} {vs : List Value} (hitems : ∀ v ∈ vs, v.Fits levels) :
      (Value.array vs).Fits (levels + 1)
  | object {levels : Nat} {ms : Members} (hnames : ms.Ordered)
      (hvalues : ∀ m ∈ ms, m.2.Fits levels) : (Value.object ms).Fits (levels + 1)

/-! ### Records -/

/-- A field of a record as it is written: its name, whether it may be missing, and the texts of its
value. -/
structure Slot where
  name : String
  optional : Prop
  spelled : Bytes → Prop

def RecordText (slots : List Slot) (s : Bytes) : Prop :=
  ∃ (entries : List (String × Bytes)) (body : Bytes),
    Row (fun e => NamedMember e.1 e.2) entries body ∧ s = inBraces body ∧
    (∀ slot ∈ slots, (entries.map Prod.fst).count slot.name ≤ 1) ∧
    (∀ slot ∈ slots, slot.name ∉ entries.map Prod.fst → slot.optional) ∧
    ∀ e ∈ entries, (∀ slot ∈ slots, slot.name = e.1 → slot.spelled e.2) ∧
      ((∀ slot ∈ slots, slot.name ≠ e.1) → Text e.2)

/-- One field is written, with no blanks, and the others are left out. -/
theorem recordText_quoted {slots : List Slot} {slot : Slot} {value : Bytes} (hslot : slot ∈ slots)
    (hplain : slot.name.toList.all isPlain = true)
    (hvalue : ∀ other ∈ slots, other.name = slot.name → other.spelled value)
    (hmissing : ∀ other ∈ slots, other.name ≠ slot.name → other.optional) :
    RecordText slots (inBraces (quoted slot.name ++ Octet.colon :: value)) := by
  have hrow := Row.first (P := fun e => NamedMember e.1 e.2) (x := (slot.name, value)) blank_nil
    (namedMember_quoted slot.name value hplain) (.done blank_nil)
  rw [List.nil_append, List.append_nil] at hrow
  refine ⟨[(slot.name, value)], _, hrow, rfl, ?_, ?_, ?_⟩
  · exact fun other _ => List.count_le_length
  · exact fun other hother hunwritten => hmissing other hother (by simpa using hunwritten)
  · exact List.forall_mem_singleton.mpr ⟨hvalue, fun hother => (hother slot hslot rfl).elim⟩

end GzipStage.Json
