import GzipStage.Proofs.Json.NumberLiteral
import GzipStage.Proofs.Json.StringLiteral

/-! Every value is passed over up to its end and no further. -/
namespace GzipStage.Json

variable {before s rest text : Bytes} {b : UInt8}

theorem isBlank_of_blank (h : Blank s) : ∀ b ∈ s, isBlank b = true := by
  intro b hb
  have hb := h b hb
  simp only [List.mem_cons, List.not_mem_nil, or_false] at hb
  rcases hb with rfl | rfl | rfl | rfl <;> rfl

theorem skipBlanks_append (h : Blank before) : skipBlanks (before ++ s) = skipBlanks s :=
  List.dropWhile_append_of_pos (isBlank_of_blank h)

theorem skipBlanks_to (h : Blank before) (hb : isBlank b = false) :
    skipBlanks (before ++ b :: s) = b :: s := by
  rw [skipBlanks_append h, skipBlanks, List.dropWhile_cons_of_neg (ne_true_of_eq_false hb)]

/-- The first octet of a value that is neither a list nor an object. -/
abbrev StartsScalar (b : UInt8) : Prop :=
  isBlank b = false ∧ b ≠ Octet.openBracket ∧ b ≠ Octet.openBrace ∧ b ≠ Octet.closeBracket

def StartsItem (text : Bytes) : Prop :=
  ∃ b tail, text = b :: tail ∧ isBlank b = false ∧ b ≠ Octet.closeBracket

theorem ne_of_isDigit {d : UInt8} (hb : Octet.isDigit b = true) (hd : Octet.isDigit d = false) :
    b ≠ d := by
  rintro rfl
  exact ne_true_of_eq_false hd hb

theorem startsScalar_of_isDigit (h : Octet.isDigit b = true) : StartsScalar b := by
  refine ⟨?_, ne_of_isDigit h rfl, ne_of_isDigit h rfl, ne_of_isDigit h rfl⟩
  rw [isBlank, decide_eq_false (ne_of_isDigit h rfl), decide_eq_false (ne_of_isDigit h rfl),
    decide_eq_false (ne_of_isDigit h rfl), decide_eq_false (ne_of_isDigit h rfl)]
  rfl

theorem stops_of_blank (h : Blank before) (hrest : Stops rest) : Stops (before ++ rest) := by
  cases before with
  | nil => exact hrest
  | cons b before =>
    intro d hd
    obtain rfl : b = d := Option.some.inj hd
    have hb := h b List.mem_cons_self
    simp only [List.mem_cons, List.not_mem_nil, or_false] at hb
    rcases hb with rfl | rfl | rfl | rfl <;> decide

theorem stops_cons (hb : b ∈ delimiters) : Stops (b :: rest) :=
  fun _ hd => Option.some.inj hd ▸ hb

theorem RowTail.stops {α : Type} {P : α → Bytes → Prop} {xs : List α} (h : RowTail P xs s)
    (hb : b ∈ delimiters) : Stops (s ++ b :: rest) := by
  cases h with
  | done hblank => exact stops_of_blank hblank (stops_cons hb)
  | item hbefore _ _ _ =>
    rw [List.append_assoc]
    exact stops_of_blank hbefore (stops_cons (by decide))

namespace Skip

/-- From one place the walk comes to another, with fuel to spare for what is left. -/
def Walks (place : Place) (stack : List Bracket) (s : Bytes) (place' : Place)
    (stack' : List Bracket) (s' : Bytes) : Prop :=
  ∀ fuel, s.length < fuel →
    ∃ fuel', s'.length < fuel' ∧ walk fuel place stack s = walk fuel' place' stack' s'

/-- A text is passed over wherever a value may stand. -/
structure Passes (text : Bytes) : Prop where
  starts : StartsItem text
  walks : ∀ stack before rest, Blank before → Stops rest →
    Walks .value stack (before ++ (text ++ rest)) .ended stack rest

variable {place place' place'' : Place} {bracket : Bracket} {stack stack' stack'' : List Bracket}
  {s' s'' : Bytes}

theorem Walks.trans (h : Walks place stack s place' stack' s')
    (h' : Walks place' stack' s' place'' stack'' s'') :
    Walks place stack s place'' stack'' s'' := by
  intro fuel hfuel
  obtain ⟨fuel', hfuel', hwalk⟩ := h fuel hfuel
  obtain ⟨fuel'', hfuel'', hwalk'⟩ := h' fuel' hfuel'
  exact ⟨fuel'', hfuel'', hwalk.trans hwalk'⟩

theorem walks_begin (h : begin stack s = .ok (place, stack', s')) (hless : s'.length < s.length) :
    Walks .value stack s place stack' s' := by
  intro fuel hfuel
  obtain ⟨fuel, rfl⟩ := Nat.exists_eq_add_one_of_ne_zero (Nat.ne_zero_of_lt hfuel)
  refine ⟨fuel, by omega, ?_⟩
  rw [walk, h]
  rfl

theorem walks_next (h : next bracket stack s = .ok (place, stack', s'))
    (hless : s'.length < s.length) : Walks .ended (bracket :: stack) s place stack' s' := by
  intro fuel hfuel
  obtain ⟨fuel, rfl⟩ := Nat.exists_eq_add_one_of_ne_zero (Nat.ne_zero_of_lt hfuel)
  refine ⟨fuel, by omega, ?_⟩
  rw [walk, h]
  rfl

theorem passes_scalar {tail : Bytes} (hb : StartsScalar b)
    (h : ∀ rest, Stops rest → scalar b (tail ++ rest) = .ok rest) : Passes (b :: tail) := by
  obtain ⟨hblank, hlist, hobject, hclose⟩ := hb
  constructor
  · exact ⟨b, tail, rfl, hblank, hclose⟩
  · intro stack before rest hbefore hrest
    have hbegin : begin stack (before ++ (b :: tail ++ rest)) = .ok (.ended, stack, rest) := by
      rw [begin, List.cons_append, skipBlanks_to hbefore hblank]
      simp only [if_neg hlist, if_neg hobject, h rest hrest]
      rfl
    apply walks_begin hbegin
    simp only [List.length_append, List.length_cons]
    omega

/-- A text that begins an item of a bracket and holds a value as its last part. -/
structure Opens (bracket : Bracket) (text value : Bytes) : Prop where
  head : ∃ b tail, text = b :: tail ∧ isBlank b = false ∧ b ≠ bracket.close
  item : ∀ before rest, Blank before → ∃ after, Blank after ∧
    after.length + value.length ≤ before.length + text.length ∧
    item bracket (before ++ (text ++ rest)) = .ok (after ++ (value ++ rest))

/-- The rest of a row is passed over with the octet that closes it. -/
theorem walks_rowTail {α : Type} {P : α → Bytes → Prop} {xs : List α}
    (h : RowTail P xs s)
    (hitems : ∀ x ∈ xs, ∀ text, P x text → ∃ value, Opens bracket text value ∧ Passes value) :
    Walks .ended (bracket :: stack) (s ++ bracket.close :: rest) .ended stack rest := by
  have hclose : isBlank bracket.close = false ∧ bracket.close ≠ Octet.comma ∧
      bracket.close ∈ delimiters := by
    cases bracket <;> decide
  induction h with
  | @done blank hblank =>
    have hnext : next bracket stack (blank ++ bracket.close :: rest) =
        .ok (.ended, stack, rest) := by
      rw [next, skipBlanks_to hblank hclose.1]
      simp only [if_neg hclose.2.1, if_true]
    apply walks_next hnext
    simp only [List.length_append, List.length_cons]
    omega
  | @item x xs before after text more hbefore hafter htext htail ih =>
    obtain ⟨value, hopens, hpasses⟩ := hitems x List.mem_cons_self text htext
    obtain ⟨after', hafter', hlength, hitem⟩ :=
      hopens.item after (more ++ bracket.close :: rest) hafter
    have hnext : next bracket stack
        (before ++ Octet.comma :: (after ++ (text ++ more)) ++ bracket.close :: rest) =
          .ok (.value, bracket :: stack, after' ++ (value ++ (more ++ bracket.close :: rest))) := by
      rw [next, List.append_assoc, List.cons_append, skipBlanks_to hbefore rfl, List.append_assoc,
        List.append_assoc]
      simp only [if_true, hitem]
      rfl
    -- The value ends under the open bracket, where the rest of the row takes over.
    have hvalue := hpasses.walks (bracket :: stack) after' (more ++ bracket.close :: rest) hafter'
      (htail.stops hclose.2.2)
    refine ((walks_next hnext ?_).trans hvalue).trans
      (ih fun x hx => hitems x (List.mem_cons_of_mem _ hx))
    simp only [List.length_append, List.length_cons]
    omega

def Bracket.opening : Bracket → UInt8
  | .list => Octet.openBracket
  | .object => Octet.openBrace

theorem begin_opening (hbefore : Blank before) :
    begin stack (before ++ bracket.opening :: s) = enter bracket stack s := by
  cases bracket
  · rw [begin, Bracket.opening, skipBlanks_to hbefore rfl]
    rfl
  · rw [begin, Bracket.opening, skipBlanks_to hbefore rfl]
    rfl

theorem passes_row {α : Type} {P : α → Bytes → Prop} {xs : List α} (bracket : Bracket)
    (h : Row P xs s)
    (hitems : ∀ x ∈ xs, ∀ text, P x text → ∃ value, Opens bracket text value ∧ Passes value) :
    Passes (bracket.opening :: (s ++ [bracket.close])) := by
  refine ⟨⟨_, _, rfl, by cases bracket <;> decide⟩, ?_⟩
  intro stack before rest hbefore hrest
  rw [List.cons_append, List.append_assoc, List.singleton_append]
  cases h with
  | none hblank =>
    have hclose : isBlank bracket.close = false := by cases bracket <;> rfl
    have hbegin : begin stack (before ++ bracket.opening :: (s ++ bracket.close :: rest)) =
        .ok (.ended, stack, rest) := by
      rw [begin_opening hbefore, enter, skipBlanks_to hblank hclose]
      simp only [if_true]
    apply walks_begin hbegin
    simp only [List.length_append, List.length_cons]
    omega
  | @first x xs blank text more hblank htext htail =>
    obtain ⟨value, hopens, hpasses⟩ := hitems x List.mem_cons_self text htext
    obtain ⟨b, tail, htextb, hb, hne⟩ := hopens.head
    obtain ⟨after, hafter, hlength, hitem⟩ :=
      hopens.item [] (more ++ bracket.close :: rest) (by simp [Blank])
    have hclose : bracket.close ∈ delimiters := by cases bracket <;> decide
    have hbegin : begin stack
        (before ++ bracket.opening :: (blank ++ (text ++ more) ++ bracket.close :: rest)) =
          .ok (.value, bracket :: stack, after ++ (value ++ (more ++ bracket.close :: rest))) := by
      rw [List.nil_append, htextb, List.cons_append] at hitem
      rw [begin_opening hbefore, enter, List.append_assoc, htextb, List.append_assoc,
        List.cons_append, skipBlanks_to hblank hb]
      simp only [if_neg hne, hitem]
      rfl
    have hvalue := hpasses.walks (bracket :: stack) after (more ++ bracket.close :: rest) hafter
      (htail.stops hclose)
    refine ((walks_begin hbegin ?_).trans hvalue).trans
      (walks_rowTail htail fun x hx => hitems x (List.mem_cons_of_mem _ hx))
    simp only [List.length_append, List.length_cons, List.length_nil] at hlength ⊢
    omega

theorem opens_list (h : Passes s) : Opens .list s s where
  head := h.starts
  item before _ hbefore := ⟨before, hbefore, Nat.le_refl _, rfl⟩

theorem opens_object {name value : Bytes} (hname : Literal name) (h : Member name value s) :
    Opens .object s value := by
  obtain ⟨tail, rfl, hskip⟩ := hname.skip
  obtain ⟨blank, blank', hblank, hblank', rfl⟩ := h
  constructor
  · exact ⟨Octet.quote, _, rfl, rfl, by decide⟩
  · intro before rest hbefore
    refine ⟨blank', hblank', ?_, ?_⟩
    · simp only [List.length_append, List.length_cons]
      omega
    · rw [item, List.append_assoc, List.cons_append, skipBlanks_to hbefore rfl]
      have hcolon : skipBlanks (blank ++ Octet.colon :: (blank' ++ (value ++ rest))) =
          Octet.colon :: (blank' ++ (value ++ rest)) := skipBlanks_to hblank rfl
      simp only [if_true, hskip, List.append_assoc, List.cons_append, ok_bind, hcolon]

theorem passes_number (h : NumberText s) : Passes s := by
  obtain ⟨sign, whole, fraction, exponent, hsign, hwhole, hfraction, hexponent, rfl⟩ := h
  have hnumber (rest : Bytes) (hrest : Stops rest) :
      number (whole ++ (fraction ++ exponent) ++ rest) = .ok rest := by
    rw [List.append_assoc, List.append_assoc, number_text hwhole hfraction hexponent hrest]
  rw [List.mem_cons, List.mem_singleton] at hsign
  rcases hsign with rfl | rfl
  · obtain ⟨b, ds, rfl⟩ := List.exists_cons_of_ne_nil hwhole.1.1
    have hb := hwhole.1.2 b List.mem_cons_self
    apply passes_scalar (startsScalar_of_isDigit hb)
    intro rest hrest
    rw [scalar, if_neg (ne_of_isDigit hb rfl), if_neg (ne_of_isDigit hb rfl),
      if_neg (ne_of_isDigit hb rfl), if_neg (ne_of_isDigit hb rfl), if_pos hb]
    exact hnumber rest hrest
  · exact passes_scalar (by decide) hnumber

end Skip

theorem readWord_append (word rest : Bytes) : readWord word (word ++ rest) = .ok rest := by
  induction word with
  | nil => rfl
  | cons w word ih => rw [List.cons_append, readWord, if_pos rfl, ih]

theorem encode_null : Utf8.encode "null" = 0x6e :: restOfNull := by decide

theorem encode_true : Utf8.encode "true" = 0x74 :: restOfTrue := by decide

theorem encode_false : Utf8.encode "false" = 0x66 :: restOfFalse := by decide

theorem Text.passes (h : Text s) : Skip.Passes s := by
  induction h with
  | null =>
    rw [encode_null]
    exact Skip.passes_scalar (by decide) fun rest _ => readWord_append _ rest
  | bool b =>
    cases b with
    | false =>
      rw [if_neg (by decide), encode_false]
      exact Skip.passes_scalar (by decide) fun rest _ => readWord_append _ rest
    | true =>
      rw [if_pos rfl, encode_true]
      exact Skip.passes_scalar (by decide) fun rest _ => readWord_append _ rest
  | number hs => exact Skip.passes_number hs
  | string hs =>
    obtain ⟨tail, rfl, hskip⟩ := hs.skip
    exact Skip.passes_scalar (by decide) fun rest _ => hskip rest
  | list hbody _ ih =>
    refine Skip.passes_row .list hbody fun text htext _ heq => ?_
    exact ⟨text, heq ▸ Skip.opens_list (ih text htext), ih text htext⟩
  | object hbody hnames _ ih =>
    refine Skip.passes_row .object hbody fun m hm text htext => ?_
    exact ⟨m.2, Skip.opens_object (hnames m hm) htext, ih m hm⟩

theorem Text.skip (h : Text s) (hbefore : Blank before) (hrest : Stops rest) :
    Skip.value (before ++ (s ++ rest)) = .ok rest := by
  obtain ⟨fuel, hfuel, hwalk⟩ := h.passes.walks [] before rest hbefore hrest _ (Nat.lt_succ_self _)
  obtain ⟨fuel, rfl⟩ := Nat.exists_eq_add_one_of_ne_zero (Nat.ne_zero_of_lt hfuel)
  rw [Skip.value, hwalk]
  rfl

end GzipStage.Json
