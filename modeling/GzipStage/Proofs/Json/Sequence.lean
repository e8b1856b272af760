import GzipStage.Proofs.Json.Success

/-! Rows of items and of members are read in order. -/
namespace GzipStage.Json

def Reads {α : Type} (read : Bytes → Except Fault (α × Bytes)) (text : Bytes) (x : α) : Prop :=
  ∀ before rest, Blank before → Stops rest → read (before ++ (text ++ rest)) = .ok (x, rest)

section Rows

variable {α : Type} {P : α → Bytes → Prop} {xs : List α} {s : Bytes}

theorem RowTail.length_le (h : RowTail P xs s) : xs.length ≤ s.length := by
  induction h with
  | done => exact Nat.zero_le _
  | item _ _ _ _ ih =>
    simp only [List.length_append, List.length_cons]
    omega

theorem Row.length_lt (h : Row P xs s) (b : UInt8) (rest : Bytes) :
    xs.length < (s ++ b :: rest).length + 1 := by
  cases h with
  | none => exact Nat.succ_pos _
  | first _ _ htail =>
    have := htail.length_le
    simp only [List.length_append, List.length_cons]
    omega

theorem skipBlanks_inBrackets {before body rest : Bytes} (h : Blank before) :
    skipBlanks (before ++ (inBrackets body ++ rest)) =
      Octet.openBracket :: (body ++ Octet.closeBracket :: rest) := by
  rw [inBrackets, List.cons_append, List.append_assoc, List.singleton_append, skipBlanks_to h rfl]

theorem skipBlanks_inBraces {before body rest : Bytes} (h : Blank before) :
    skipBlanks (before ++ (inBraces body ++ rest)) =
      Octet.openBrace :: (body ++ Octet.closeBrace :: rest) := by
  rw [inBraces, List.cons_append, List.append_assoc, List.singleton_append, skipBlanks_to h rfl]

end Rows

/-! ### Lists -/

section Lists

variable {α β : Type} {P : α → Bytes → Prop} {read : Bytes → Except Fault (β × Bytes)} {f : α → β}
  {xs : List α} {acc : List β} {s rest text : Bytes} {fuel : Nat}

theorem nextItem?_first {before : Bytes} (hbefore : Blank before) (htext : StartsItem text) :
    nextItem? true (before ++ (text ++ rest)) = .ok (some (text ++ rest)) := by
  obtain ⟨b, tail, rfl, hb, hclose⟩ := htext
  rw [nextItem?, List.cons_append, skipBlanks_to hbefore hb]
  simp only [if_neg hclose, if_true]

theorem nextItem?_next {before after : Bytes} (hbefore : Blank before) (hafter : Blank after)
    (htext : StartsItem text) :
    nextItem? false (before ++ Octet.comma :: (after ++ (text ++ rest))) =
      .ok (some (text ++ rest)) := by
  obtain ⟨b, tail, rfl, hb, hclose⟩ := htext
  rw [nextItem?, skipBlanks_to hbefore rfl, List.cons_append]
  simp only [skipBlanks_to hafter hb, if_neg hclose]
  rfl

theorem nextItem?_end {blank : Bytes} {first : Bool} (hblank : Blank blank) :
    nextItem? first (blank ++ Octet.closeBracket :: rest) = .ok none := by
  rw [nextItem?, skipBlanks_to hblank rfl]
  rfl

theorem closeList_end {blank : Bytes} (hblank : Blank blank) :
    closeList (blank ++ Octet.closeBracket :: rest) = .ok rest :=
  closeList_ok_iff.mpr (skipBlanks_to hblank rfl)

theorem items_step {x : β} (hnext : nextItem? acc.isEmpty s = .ok (some (text ++ rest)))
    (hread : Reads read text x) (hrest : Stops rest) :
    items read (fuel + 1) acc s = items read fuel (x :: acc) rest := by
  have hx : read (text ++ rest) = .ok (x, rest) := hread [] rest (by simp [Blank]) hrest
  rw [items, hnext, ok_bind]
  simp only [hx, ok_bind]

theorem items_end {blank : Bytes} (hblank : Blank blank) :
    items read (fuel + 1) acc (blank ++ Octet.closeBracket :: rest) =
      .ok (acc, blank ++ Octet.closeBracket :: rest) := by
  rw [items, nextItem?_end hblank]
  rfl

theorem items_rowTail (rest : Bytes) (h : RowTail P xs s) (hacc : acc.isEmpty = false)
    (hfuel : xs.length < fuel)
    (hitems : ∀ x ∈ xs, ∀ text, P x text → StartsItem text ∧ Reads read text (f x)) :
    ∃ blank, Blank blank ∧ items read fuel acc (s ++ Octet.closeBracket :: rest) =
      .ok ((xs.map f).reverse ++ acc, blank ++ Octet.closeBracket :: rest) := by
  induction h generalizing acc fuel with
  | @done blank hblank =>
    obtain ⟨fuel, rfl⟩ := Nat.exists_eq_add_one_of_ne_zero (Nat.ne_zero_of_lt hfuel)
    exact ⟨blank, hblank, items_end hblank⟩
  | @item x xs before after text more hbefore hafter htext htail ih =>
    obtain ⟨fuel, rfl⟩ := Nat.exists_eq_add_one_of_ne_zero (Nat.ne_zero_of_lt hfuel)
    obtain ⟨hstarts, hread⟩ := hitems x List.mem_cons_self text htext
    obtain ⟨blank, hblank, hmore⟩ := ih (show (f x :: acc).isEmpty = false from rfl)
      (Nat.lt_of_succ_lt_succ hfuel) fun x hx => hitems x (List.mem_cons_of_mem _ hx)
    refine ⟨blank, hblank, ?_⟩
    rw [List.append_assoc, List.cons_append, List.append_assoc, List.append_assoc,
      items_step (hacc ▸ nextItem?_next hbefore hafter hstarts) hread
        (htail.stops (by decide)),
      hmore, List.map_cons, List.reverse_cons, List.append_assoc, List.singleton_append]

theorem items_row (rest : Bytes) (h : Row P xs s) (hfuel : xs.length < fuel)
    (hitems : ∀ x ∈ xs, ∀ text, P x text → StartsItem text ∧ Reads read text (f x)) :
    ∃ blank, Blank blank ∧ items read fuel [] (s ++ Octet.closeBracket :: rest) =
      .ok ((xs.map f).reverse, blank ++ Octet.closeBracket :: rest) := by
  obtain ⟨fuel, rfl⟩ := Nat.exists_eq_add_one_of_ne_zero (Nat.ne_zero_of_lt hfuel)
  cases h with
  | none hblank => exact ⟨s, hblank, items_end hblank⟩
  | @first x xs before text more hbefore htext htail =>
    obtain ⟨hstarts, hread⟩ := hitems x List.mem_cons_self text htext
    obtain ⟨blank, hblank, hmore⟩ := items_rowTail rest htail
      (show [f x].isEmpty = false from rfl) (Nat.lt_of_succ_lt_succ hfuel)
      fun x hx => hitems x (List.mem_cons_of_mem _ hx)
    refine ⟨blank, hblank, ?_⟩
    rw [List.append_assoc, List.append_assoc,
      items_step (show nextItem? [].isEmpty _ = _ from nextItem?_first hbefore hstarts) hread
        (htail.stops (by decide)), hmore, List.map_cons, List.reverse_cons]

end Lists

/-! ### Objects -/

section Objects

variable {σ α : Type} {read : String → σ → Bytes → Except Fault (σ × Bytes)} {name : α → String}
  {text : α → Bytes} {e : α} {es : List α} {x y z : σ} {s rest : Bytes} {fuel : Nat}

/-- From after the name of a member, its colon and its value are read. -/
def ReadsMember (read : Bytes → Except Fault (σ × Bytes)) (text : Bytes) (y : σ) : Prop :=
  ∀ before after rest, Blank before → Blank after → Stops rest →
    read (before ++ Octet.colon :: (after ++ (text ++ rest))) = .ok (y, rest)

/-- Reading the members one after another takes one state to another. -/
inductive Folds (read : String → σ → Bytes → Except Fault (σ × Bytes)) (name : α → String)
    (text : α → Bytes) : σ → List α → σ → Prop
  | nil (x : σ) : Folds read name text x [] x
  | cons {e : α} {es : List α} {x y z : σ} (hread : ReadsMember (read (name e) x) (text e) y)
      (hmore : Folds read name text y es z) : Folds read name text x (e :: es) z

theorem readColon_next {before : Bytes} (hbefore : Blank before) :
    readColon (before ++ Octet.colon :: s) = .ok s :=
  readColon_ok_iff.mpr (skipBlanks_to hbefore rfl)

theorem closeObject_end {blank : Bytes} (hblank : Blank blank) :
    closeObject (blank ++ Octet.closeBrace :: rest) = .ok rest :=
  closeObject_ok_iff.mpr (skipBlanks_to hblank rfl)

theorem nextName?_end {blank : Bytes} {first : Bool} (hblank : Blank blank) :
    nextName? first (blank ++ Octet.closeBrace :: rest) = .ok none := by
  rw [nextName?, skipBlanks_to hblank rfl]
  rfl

theorem nextName?_first {t : String} {literal before : Bytes} (h : StringText t literal)
    (hbefore : Blank before) :
    nextName? true (before ++ (literal ++ rest)) = .ok (some (t, rest)) := by
  obtain ⟨tail, rfl, hread⟩ := h.read
  rw [nextName?, List.cons_append, skipBlanks_to hbefore rfl]
  show nextName?.name Octet.quote (tail ++ rest) = _
  rw [nextName?.name, if_pos rfl, hread]
  rfl

theorem nextName?_next {t : String} {literal before after : Bytes} (h : StringText t literal)
    (hbefore : Blank before) (hafter : Blank after) :
    nextName? false (before ++ Octet.comma :: (after ++ (literal ++ rest))) =
      .ok (some (t, rest)) := by
  obtain ⟨tail, rfl, hread⟩ := h.read
  have hquote : isBlank Octet.quote = false := rfl
  rw [nextName?, skipBlanks_to hbefore rfl, List.cons_append]
  simp only [skipBlanks_to hafter hquote]
  show nextName?.name Octet.quote (tail ++ rest) = _
  rw [nextName?.name, if_pos rfl, hread]
  rfl

theorem members_step {first : Bool} {t : String} {value before after : Bytes}
    (hnext : nextName? first s =
      .ok (some (t, before ++ Octet.colon :: (after ++ (value ++ rest)))))
    (hbefore : Blank before) (hafter : Blank after) (hread : ReadsMember (read t x) value y)
    (hrest : Stops rest) :
    members read (fuel + 1) first x s = members read fuel false y rest := by
  rw [members, hnext, ok_bind]
  simp only [hread before after rest hbefore hafter hrest, ok_bind]

theorem members_end {first : Bool} {blank : Bytes} (hblank : Blank blank) :
    members read (fuel + 1) first x (blank ++ Octet.closeBrace :: rest) =
      .ok (x, blank ++ Octet.closeBrace :: rest) := by
  rw [members, nextName?_end hblank]
  rfl

theorem members_rowTail (rest : Bytes)
    (h : RowTail (fun e => NamedMember (name e) (text e)) es s)
    (hfolds : Folds read name text x es z) (hfuel : es.length < fuel) :
    ∃ blank, Blank blank ∧ members read fuel false x (s ++ Octet.closeBrace :: rest) =
      .ok (z, blank ++ Octet.closeBrace :: rest) := by
  induction h generalizing x fuel with
  | @done blank hblank =>
    obtain ⟨fuel, rfl⟩ := Nat.exists_eq_add_one_of_ne_zero (Nat.ne_zero_of_lt hfuel)
    cases hfolds
    exact ⟨blank, hblank, members_end hblank⟩
  | @item e es before after member more hbefore hafter hmember htail ih =>
    obtain ⟨fuel, rfl⟩ := Nat.exists_eq_add_one_of_ne_zero (Nat.ne_zero_of_lt hfuel)
    obtain ⟨literal, hliteral, before', after', hbefore', hafter', rfl⟩ := hmember
    cases hfolds with
    | cons hread hmore =>
      obtain ⟨blank, hblank, hrow⟩ := ih hmore (Nat.lt_of_succ_lt_succ hfuel)
      refine ⟨blank, hblank, ?_⟩
      simp only [List.append_assoc, List.cons_append]
      rw [members_step (nextName?_next hliteral hbefore hafter) hbefore' hafter' hread
        (htail.stops (by decide)), hrow]

theorem members_row (rest : Bytes) (h : Row (fun e => NamedMember (name e) (text e)) es s)
    (hfolds : Folds read name text x es z) (hfuel : es.length < fuel) :
    ∃ blank, Blank blank ∧ members read fuel true x (s ++ Octet.closeBrace :: rest) =
      .ok (z, blank ++ Octet.closeBrace :: rest) := by
  obtain ⟨fuel, rfl⟩ := Nat.exists_eq_add_one_of_ne_zero (Nat.ne_zero_of_lt hfuel)
  cases h with
  | none hblank =>
    cases hfolds
    exact ⟨s, hblank, members_end hblank⟩
  | @first e es before member more hbefore hmember htail =>
    obtain ⟨literal, hliteral, before', after', hbefore', hafter', rfl⟩ := hmember
    cases hfolds with
    | cons hread hmore =>
      obtain ⟨blank, hblank, hrow⟩ :=
        members_rowTail rest htail hmore (Nat.lt_of_succ_lt_succ hfuel)
      refine ⟨blank, hblank, ?_⟩
      simp only [List.append_assoc, List.cons_append]
      rw [members_step (nextName?_first hliteral hbefore) hbefore' hafter' hread
        (htail.stops (by decide)), hrow]

end Objects

end GzipStage.Json
