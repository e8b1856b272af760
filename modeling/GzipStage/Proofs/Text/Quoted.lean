import GzipStage.Text.Quoted
import Mathlib.Tactic.IntervalCases

/-! The quoted form of a text is one line, and the text is read back from it. -/
namespace GzipStage

def IsControl (c : Char) : Prop := c.toNat < 0x20 ∨ 0x7f ≤ c.toNat ∧ c.toNat ≤ 0x9f

/-- The characters after which a new line may begin: line feed, line tabulation, form feed, carriage
return, next line, and the two separators of lines and paragraphs. -/
def BreaksLine (c : Char) : Prop :=
  c.toNat ∈ [0x0a, 0x0b, 0x0c, 0x0d, 0x85, 0x2028, 0x2029]

instance : DecidablePred IsControl := fun _ => inferInstanceAs (Decidable (_ ∨ _))

instance : DecidablePred BreaksLine := fun _ => inferInstanceAs (Decidable (_ ∈ _))

theorem isUnprintable_of_mem {c : Char} {least greatest : Nat}
    (h : (least, greatest) ∈ Unprintable.ranges) (hleast : least ≤ c.toNat)
    (hgreatest : c.toNat ≤ greatest) : isUnprintable c = true := by
  unfold isUnprintable
  refine List.any_eq_true.mpr ⟨_, h, ?_⟩
  simp only [hleast, hgreatest, decide_true, Bool.and_self]

theorem IsControl.isUnprintable {c : Char} (h : IsControl c) : isUnprintable c = true := by
  rcases h with h | ⟨hleast, hgreatest⟩
  · exact isUnprintable_of_mem (show (0x0, 0x1f) ∈ _ by decide) (Nat.zero_le _)
      (Nat.le_of_lt_succ h)
  · exact isUnprintable_of_mem (show (0x7f, 0xa0) ∈ _ by decide) hleast
      (Nat.le_succ_of_le hgreatest)

theorem BreaksLine.isUnprintable {c : Char} (h : BreaksLine c) : isUnprintable c = true := by
  have hrange : c.toNat ≤ 0x1f ∨ c.toNat = 0x85 ∨ 0x2028 ≤ c.toNat ∧ c.toNat ≤ 0x202f := by
    simp only [BreaksLine, List.mem_cons, List.not_mem_nil, or_false] at h
    omega
  rcases hrange with h | h | ⟨hleast, hgreatest⟩
  · exact isUnprintable_of_mem (show (0x0, 0x1f) ∈ _ by decide) (Nat.zero_le _) h
  · exact isUnprintable_of_mem (show (0x7f, 0xa0) ∈ _ by decide) (by omega) (by omega)
  · exact isUnprintable_of_mem (show (0x2028, 0x202f) ∈ _ by decide +kernel) hleast hgreatest

/-- What has a shape of its own neither controls nor breaks a line. -/
theorem not_breaks_of_printable {c : Char} (h : isUnprintable c = false) :
    ¬ IsControl c ∧ ¬ BreaksLine c :=
  ⟨fun hcontrol => Bool.false_ne_true (h.symm.trans hcontrol.isUnprintable),
    fun hbreaks => Bool.false_ne_true (h.symm.trans hbreaks.isUnprintable)⟩

/-- The characters of ASCII from the blank on have a shape, but for the last one. -/
theorem not_isUnprintable_of_ascii {c : Char} (hleast : 0x20 ≤ c.toNat) (hless : c.toNat < 0x7f) :
    isUnprintable c = false := by
  have houtside : ∀ r ∈ Unprintable.ranges, r.2 < 0x20 ∨ 0x7f ≤ r.1 := by decide +kernel
  unfold isUnprintable
  refine List.any_eq_false.mpr fun r hr => ?_
  have hr := houtside r hr
  rw [Bool.and_eq_true, decide_eq_true_eq, decide_eq_true_eq]
  omega

namespace Quoted

/-! ### Reading -/

/-- Where the reader of a quoted text stands between two characters. -/
inductive State where
  | plain
  | escape
  /-- After `\u`, where the brace opens. -/
  | brace
  /-- After the brace and some digits, which have spelt a number so far. -/
  | digits (n : Nat)

/-- The character that stands behind a backslash for another one. -/
def letter? (c : Char) : Option Char :=
  [('0', '\x00'), ('t', '\t'), ('n', '\n'), ('r', '\r'), ('"', '"'), ('\\', '\\')].lookup c

def digit? (c : Char) : Option Nat :=
  if '0' ≤ c ∧ c ≤ '9' then some (c.toNat - 0x30)
  else if 'a' ≤ c ∧ c ≤ 'f' then some (c.toNat - 0x61 + 10)
  else none

/-- The characters up to the closing mark, and what follows it. -/
def contents (state : State) : List Char → Option (List Char × List Char)
  | [] => none
  | c :: rest =>
    match state with
    | .plain =>
      if c = '"' then some ([], rest)
      else if c = '\\' then contents .escape rest
      else (contents .plain rest).map (.map (c :: ·) id)
    | .escape =>
      if c = 'u' then contents .brace rest
      else (letter? c).bind fun d => (contents .plain rest).map (.map (d :: ·) id)
    | .brace => if c = '\x7b' then contents (.digits 0) rest else none
    | .digits n =>
      if c = '\x7d' then (contents .plain rest).map (.map (Char.ofNat n :: ·) id)
      else (digit? c).bind fun d => contents (.digits (n * 16 + d)) rest

/-- The text whose quoted form stands in front, and what follows it. -/
def unquote? : List Char → Option (String × List Char)
  | [] => none
  | c :: rest => if c = '"' then (contents .plain rest).map (.map String.ofList id) else none

variable {c : Char} {n : Nat} {rest : List Char}

theorem digitChar_spec (h : n < 16) :
    digit? n.digitChar = some n ∧ n.digitChar ≠ '\x7d' ∧ 0x20 ≤ n.digitChar.toNat ∧
      n.digitChar.toNat < 0x7f := by
  interval_cases n <;> decide

theorem hexDigits_of_lt (h : n < 16) : hexDigits n = [n.digitChar] :=
  Nat.toDigits_of_lt_base h

theorem hexDigits_of_le (h : 16 ≤ n) :
    hexDigits n = hexDigits (n / 16) ++ [(n % 16).digitChar] :=
  Nat.toDigits_of_base_le (by decide) h

theorem contents_digitChar (h : n < 16) (m : Nat) (rest : List Char) :
    contents (.digits m) (n.digitChar :: rest) = contents (.digits (m * 16 + n)) rest := by
  obtain ⟨hvalue, hbrace, -⟩ := digitChar_spec h
  rw [contents, if_neg hbrace, hvalue, Option.bind_some]

theorem contents_hexDigits (n : Nat) (rest : List Char) :
    contents (.digits 0) (hexDigits n ++ rest) = contents (.digits n) rest := by
  -- The digits of `n` are those of `n / 16` and one more.
  induction n using Nat.strongRecOn generalizing rest with
  | ind n ih =>
    by_cases hn : n < 16
    · rw [hexDigits_of_lt hn, List.singleton_append, contents_digitChar hn, Nat.zero_mul,
        Nat.zero_add]
    · have hle : 16 ≤ n := Nat.not_lt.mp hn
      rw [hexDigits_of_le hle, List.append_assoc, List.singleton_append,
        ih (n / 16) (Nat.div_lt_self (by omega) (by decide)),
        contents_digitChar (Nat.mod_lt n (by decide)), Nat.mul_comm, Nat.div_add_mod]

theorem contents_escapeChar (c : Char) (rest : List Char) :
    contents .plain (escapeChar c ++ rest) = (contents .plain rest).map (.map (c :: ·) id) := by
  unfold escapeChar
  split
  case h_1 | h_2 | h_3 | h_4 | h_5 | h_6 => rfl
  case h_7 hquote hbackslash =>
    split
    case isTrue =>
      have hopen :
          contents .plain ('\\' :: 'u' :: '\x7b' :: (hexDigits c.toNat ++ '\x7d' :: rest)) =
            contents (.digits 0) (hexDigits c.toNat ++ '\x7d' :: rest) := rfl
      rw [List.append_assoc, List.append_assoc, List.singleton_append, List.cons_append,
        List.cons_append, List.cons_append, List.nil_append, hopen, contents_hexDigits, contents,
        if_pos rfl, Char.ofNat_toNat]
    case isFalse =>
      rw [List.singleton_append, contents, if_neg hquote, if_neg hbackslash]

theorem contents_text (cs rest : List Char) :
    contents .plain (cs.flatMap escapeChar ++ '"' :: rest) = some (cs, rest) := by
  induction cs with
  | nil => rfl
  | cons c cs ih =>
    rw [List.flatMap_cons, List.append_assoc, contents_escapeChar, ih]
    rfl

theorem unquote?_quote (s : String) (rest : List Char) :
    unquote? ((quote s).toList ++ rest) = some (s, rest) := by
  rw [quote, String.toList_ofList, List.cons_append, List.cons_append, List.append_assoc, unquote?,
    if_pos rfl, List.singleton_append, contents_text]
  exact congrArg (fun s => some (s, rest)) String.ofList_toList

theorem quote_append_inj {s t : String} {after before : List Char} :
    (quote s).toList ++ after = (quote t).toList ++ before ↔ s = t ∧ after = before := by
  constructor
  · intro h
    have hread := unquote?_quote s after
    rw [h, unquote?_quote t before, Option.some.injEq, Prod.mk.injEq] at hread
    exact ⟨hread.1.symm, hread.2.symm⟩
  · rintro ⟨rfl, rfl⟩
    rfl

theorem quote_inj {s t : String} : quote s = quote t ↔ s = t := by
  have h : (quote s).toList ++ [] = (quote t).toList ++ [] ↔ s = t ∧ [] = [] := quote_append_inj
  rwa [List.append_nil, List.append_nil, String.toList_inj, and_iff_left rfl] at h

/-! ### One line -/

theorem printable_hexDigits (n : Nat) : ∀ c ∈ hexDigits n, isUnprintable c = false := by
  induction n using Nat.strongRecOn with
  | ind n ih =>
    have hdigit {d : Nat} (hd : d < 16) : ∀ c ∈ [d.digitChar], isUnprintable c = false := by
      obtain ⟨-, -, hleast, hless⟩ := digitChar_spec hd
      exact List.forall_mem_singleton.mpr (not_isUnprintable_of_ascii hleast hless)
    by_cases hn : n < 16
    · rw [hexDigits_of_lt hn]
      exact hdigit hn
    · rw [hexDigits_of_le (Nat.not_lt.mp hn)]
      exact List.forall_mem_append.mpr
        ⟨ih (n / 16) (Nat.div_lt_self (by omega) (by decide)), hdigit (Nat.mod_lt n (by decide))⟩

theorem printable_ascii {cs : List Char}
    (h : cs.all (fun c => 0x20 ≤ c.toNat && c.toNat < 0x7f) = true) :
    ∀ c ∈ cs, isUnprintable c = false := by
  intro c hc
  have hc := List.all_eq_true.mp h c hc
  rw [Bool.and_eq_true, decide_eq_true_eq, decide_eq_true_eq] at hc
  exact not_isUnprintable_of_ascii hc.1 hc.2

theorem printable_escapeChar (c : Char) : ∀ d ∈ escapeChar c, isUnprintable d = false := by
  unfold escapeChar
  split
  case h_1 | h_2 | h_3 | h_4 | h_5 | h_6 => exact printable_ascii (by decide)
  case h_7 =>
    split
    case isTrue =>
      refine List.forall_mem_append.mpr ⟨List.forall_mem_append.mpr ⟨?_, printable_hexDigits _⟩, ?_⟩
      · exact printable_ascii (by decide)
      · exact printable_ascii (by decide)
    case isFalse hprintable =>
      exact List.forall_mem_singleton.mpr (Bool.eq_false_iff.mpr hprintable)

theorem printable_quote (s : String) : ∀ c ∈ (quote s).toList, isUnprintable c = false := by
  have hmark : isUnprintable '"' = false :=
    not_isUnprintable_of_ascii (by decide) (by decide)
  have hcontents : ∀ c ∈ s.toList.flatMap escapeChar, isUnprintable c = false := by
    intro d hd
    obtain ⟨c, -, hd⟩ := List.mem_flatMap.mp hd
    exact printable_escapeChar c d hd
  rw [quote, String.toList_ofList]
  exact List.forall_mem_cons.mpr
    ⟨hmark, List.forall_mem_append.mpr ⟨hcontents, List.forall_mem_singleton.mpr hmark⟩⟩

end Quoted

end GzipStage
