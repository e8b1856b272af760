import GzipStage.Proofs.Json.Read
import GzipStage.Proofs.Json.Sound.Skip

/-! What is read as a list or an object is written as one. -/
namespace GzipStage.Json

/-! ### Lists and objects as they are written -/

section Structure

variable {entries entries' : List (String × Bytes)} {items items' : List Bytes}
  {s text text' before before' rest rest' : Bytes}

/-- An object with these members, in the order of the text.  Names are told after unescaping. -/
def ObjectText (entries : List (String × Bytes)) (s : Bytes) : Prop :=
  ∃ body, Row (fun e => NamedMember e.1 e.2) entries body ∧ (∀ e ∈ entries, Text e.2) ∧
    s = inBraces body

def ListText (items : List Bytes) (s : Bytes) : Prop :=
  ∃ body, Row Eq items body ∧ (∀ item ∈ items, Text item) ∧ s = inBrackets body

theorem ObjectText.isText (h : ObjectText entries s) : Text s := by
  obtain ⟨body, hbody, htexts, rfl⟩ := h
  obtain ⟨members, hmembers, hboth⟩ := hbody.exchange
    (Q := fun m : Bytes × Bytes => Member m.1 m.2) (R := fun m => Literal m.1 ∧ Text m.2)
    fun e he text ⟨literal, hliteral, hmember⟩ =>
      ⟨(literal, e.2), hmember, hliteral.literal, htexts e he⟩
  exact .object hmembers (fun m hm => (hboth m hm).1) fun m hm => (hboth m hm).2

theorem ListText.isText (h : ListText items s) : Text s := by
  obtain ⟨body, hbody, htexts, rfl⟩ := h
  exact .list hbody htexts

def readText (s : Bytes) : Except Fault (Bytes × Bytes) := do
  let rest ← Skip.value s
  .ok ((skipBlanks s).take ((skipBlanks s).length - rest.length), rest)

theorem Text.starts (h : Text text) : StartsItem text := h.passes.starts

theorem skipBlanks_text (hbefore : Blank before) (h : Text text) :
    skipBlanks (before ++ (text ++ rest)) = text ++ rest := by
  obtain ⟨b, tail, rfl, hb, _⟩ := h.starts
  exact skipBlanks_to hbefore hb

theorem Text.skipBlanks (h : Text text) : skipBlanks text = text := by
  have hskip : Json.skipBlanks ([] ++ (text ++ [])) = text ++ [] := skipBlanks_text blank_nil h
  rwa [List.nil_append, List.append_nil] at hskip

theorem Text.readText (h : Text text) : Reads readText text text := by
  intro before rest hbefore hrest
  rw [Json.readText, h.skip hbefore hrest, ok_bind, skipBlanks_text hbefore h]
  simp

theorem Text.unique (h : Text text) (h' : Text text') (hbefore : Blank before)
    (hbefore' : Blank before') (hrest : Stops rest) (hrest' : Stops rest')
    (heq : before ++ (text ++ rest) = before' ++ (text' ++ rest')) :
    text = text' ∧ rest = rest' := by
  have hread := h.readText before rest hbefore hrest
  rw [heq, h'.readText before' rest' hbefore' hrest', Except.ok.injEq, Prod.mk.injEq] at hread
  exact ⟨hread.1.symm, hread.2.symm⟩

/-- Reads a member as its name and the text of its value. -/
def readEntry (name : String) (entries : List (String × Bytes)) (s : Bytes) :
    Except Fault (List (String × Bytes) × Bytes) := do
  let s ← readColon s
  let (text, s) ← readText s
  .ok (entries ++ [(name, text)], s)

theorem readEntry_folds (start : List (String × Bytes)) (htexts : ∀ e ∈ entries, Text e.2) :
    Folds readEntry Prod.fst Prod.snd start entries (start ++ entries) := by
  induction entries generalizing start with
  | nil =>
    rw [List.append_nil]
    exact .nil start
  | cons e entries ih =>
    obtain ⟨he, hmore⟩ := List.forall_mem_cons.mp htexts
    rw [List.append_cons]
    exact .cons (he.readText.member fun text => start ++ [(e.1, text)]) (ih _ hmore)

theorem ObjectText.not_listText (h : ObjectText entries s) : ¬ ListText items s := by
  rintro ⟨_, _, _, hlist⟩
  obtain ⟨_, _, _, hobject⟩ := h
  exact openBracket_ne_openBrace (List.cons.inj (hlist.symm.trans hobject)).1

end Structure

/-! ### Readers that take a value to its end -/

section Sound

variable {α σ : Type} {read : Bytes → Except Fault (α × Bytes)} {s rest text : Bytes} {x : α}

/-- What is read is blanks and a value, and that value is read as the same thing everywhere. -/
def Sound (read : Bytes → Except Fault (α × Bytes)) : Prop :=
  ∀ s x rest, read s = .ok (x, rest) → Stops rest →
    ∃ before text, Blank before ∧ Text text ∧ s = before ++ (text ++ rest) ∧ Reads read text x

/-- From after the name of a member, what is read is a colon and a value, and the value is read as
the same thing everywhere. -/
def SoundMember (read : Bytes → Except Fault (σ × Bytes)) : Prop :=
  ∀ s x rest, read s = .ok (x, rest) → Stops rest →
    ∃ before after text, Blank before ∧ Blank after ∧ Text text ∧
      s = before ++ Octet.colon :: (after ++ (text ++ rest)) ∧ ReadsMember read text x

theorem stops_nil : Stops [] := nofun

theorem Blank.stops (h : Blank s) : Stops s := List.append_nil s ▸ stops_of_blank h stops_nil

/-- A value is read as something when it is read as that on its own. -/
theorem Sound.reads_iff (h : Sound read) (htext : Text text) :
    Reads read text x ↔ read text = .ok (x, []) := by
  constructor
  · intro hreads
    have hread := hreads [] [] blank_nil stops_nil
    rwa [List.nil_append, List.append_nil] at hread
  · intro hread
    obtain ⟨before, text', hbefore, htext', hsplit, hreads⟩ := h _ _ _ hread stops_nil
    have hsame : [] ++ (text ++ []) = before ++ (text' ++ []) := by
      rw [List.nil_append, List.append_nil]
      exact hsplit
    obtain ⟨rfl, _⟩ := htext.unique htext' blank_nil hbefore stops_nil stops_nil hsame
    exact hreads

theorem Reads.inj {y : α} (h : Reads read text x) (h' : Reads read text y) : x = y := by
  have hread := h [] [] blank_nil stops_nil
  rw [h' [] [] blank_nil stops_nil, Except.ok.injEq, Prod.mk.injEq] at hread
  exact hread.1.symm

theorem Sound.member (h : Sound read) (f : α → σ) :
    SoundMember (fun s => do
      let s ← readColon s
      let (x, s) ← read s
      .ok (f x, s)) := by
  intro s y rest hread hrest
  obtain ⟨s₁, hcolon, hread⟩ := bind_ok_iff.mp hread
  obtain ⟨⟨x, s₂⟩, hvalue, hread⟩ := bind_ok_iff.mp hread
  cases hread
  obtain ⟨before, hbefore, rfl⟩ := skipBlanks_eq_cons (readColon_ok_iff.mp hcolon)
  obtain ⟨after, text, hafter, htext, rfl, hreads⟩ := h _ _ _ hvalue hrest
  exact ⟨before, after, text, hbefore, hafter, htext, rfl, hreads.member f⟩

theorem Sound.readsMember (h : Sound read) (htext : Text text) {f : α → σ} {y : σ}
    (hmember : ReadsMember (fun s => do
      let s ← readColon s
      let (x, s) ← read s
      .ok (f x, s)) text y) : ∃ x, Reads read text x ∧ f x = y := by
  obtain ⟨s₁, hcolon, hvalue⟩ := bind_ok_iff.mp (hmember [] [] [] blank_nil blank_nil stops_nil)
  obtain ⟨⟨x, rest⟩, hx, hend⟩ := bind_ok_iff.mp hvalue
  rw [readColon_next blank_nil, List.nil_append, List.append_nil, Except.ok.injEq] at hcolon
  cases hend
  rw [← hcolon] at hx
  exact ⟨x, (h.reads_iff htext).mpr hx, rfl⟩

end Sound

/-! ### Loops -/

section Loops

variable {α σ : Type} {P : α → Bytes → Prop} {x : α} {xs : List α} {first : Bool} {fuel : Nat}
  {s s₁ rest before text body : Bytes} {b : UInt8}

/-- The items of a row, or those that follow the first one. -/
def RowFrom (first : Bool) (P : α → Bytes → Prop) (xs : List α) (s : Bytes) : Prop :=
  if first then Row P xs s else RowTail P xs s

theorem rowFrom_nil (h : skipBlanks s = b :: rest) :
    ∃ blank, RowFrom first P [] blank ∧ s = blank ++ b :: rest := by
  obtain ⟨blank, hblank, rfl⟩ := skipBlanks_eq_cons h
  refine ⟨blank, ?_, rfl⟩
  cases first with
  | true => exact .none hblank
  | false => exact .done hblank

theorem RowFrom.blank (h : RowFrom first P [] s) : Blank s := by
  cases first with
  | true =>
    cases h
    assumption
  | false =>
    cases h
    assumption

/-- What comes before an item: blanks, and a comma among them unless it is the first one. -/
inductive Lead : Bool → Bytes → Prop
  | first {before : Bytes} (hbefore : Blank before) : Lead true before
  | next {before after : Bytes} (hbefore : Blank before) (hafter : Blank after) :
      Lead false (before ++ Octet.comma :: after)

theorem Lead.row {lead : Bytes} (h : Lead first lead) (hbefore : Blank before) (htext : P x text)
    (hbody : RowTail P xs body) :
    RowFrom first P (x :: xs) (lead ++ (before ++ (text ++ body))) := by
  cases h with
  | first hlead =>
    rw [← List.append_assoc]
    exact .first (List.forall_mem_append.mpr ⟨hlead, hbefore⟩) htext hbody
  | next hlead hafter =>
    rw [List.append_assoc, List.cons_append, ← List.append_assoc _ before]
    exact .item hlead (List.forall_mem_append.mpr ⟨hafter, hbefore⟩) htext hbody

theorem lead_of_nextItem? (h : nextItem? first s = .ok (some s₁)) :
    ∃ lead, Lead first lead ∧ s = lead ++ s₁ := by
  rw [nextItem?] at h
  cases hskip : skipBlanks s with
  | nil => simp [hskip] at h
  | cons b s₂ =>
    obtain ⟨before, hbefore, rfl⟩ := skipBlanks_eq_cons hskip
    simp only [hskip] at h
    split at h
    · cases h
    cases first with
    | true =>
      cases h
      exact ⟨before, .first hbefore, rfl⟩
    | false =>
      simp only [Bool.false_eq_true, if_false] at h
      split at h
      · next hcomma =>
        cases hskip' : skipBlanks s₂ with
        | nil => simp [hskip'] at h
        | cons b' s₃ =>
          simp only [hskip'] at h
          split at h
          · cases h
          · cases h
            obtain ⟨after, hafter, rfl⟩ := skipBlanks_eq_cons hskip'
            exact ⟨_, .next hbefore hafter, by simp [hcomma]⟩
      · cases h

theorem stringText_of_name {name : String} (h : nextName?.name b s = .ok (some (name, s₁))) :
    ∃ literal, StringText name literal ∧ b :: s = literal ++ s₁ := by
  rw [nextName?.name] at h
  split_ifs at h with hquote
  obtain ⟨⟨text, s₂⟩, hread, h⟩ := bind_ok_iff.mp h
  cases h
  rw [hquote]
  exact stringText_of_read hread

theorem lead_of_nextName? {name : String} (h : nextName? first s = .ok (some (name, s₁))) :
    ∃ lead literal, Lead first lead ∧ StringText name literal ∧ s = lead ++ (literal ++ s₁) := by
  rw [nextName?] at h
  cases hskip : skipBlanks s with
  | nil => simp [hskip] at h
  | cons b s₂ =>
    obtain ⟨before, hbefore, rfl⟩ := skipBlanks_eq_cons hskip
    simp only [hskip] at h
    split at h
    · cases h
    cases first with
    | true =>
      obtain ⟨literal, hliteral, hsplit⟩ := stringText_of_name h
      exact ⟨before, literal, .first hbefore, hliteral, by rw [hsplit]⟩
    | false =>
      simp only [Bool.false_eq_true, if_false] at h
      split at h
      · next hcomma =>
        cases hskip' : skipBlanks s₂ with
        | nil => simp [hskip'] at h
        | cons b' s₃ =>
          simp only [hskip'] at h
          split at h
          · cases h
          · obtain ⟨after, hafter, rfl⟩ := skipBlanks_eq_cons hskip'
            obtain ⟨literal, hliteral, hsplit⟩ := stringText_of_name h
            exact ⟨_, literal, .next hbefore hafter, hliteral, by simp [hcomma, ← hsplit]⟩
      · cases h

theorem items_sound {read : Bytes → Except Fault (α × Bytes)} {acc found : List α}
    (hread : Sound read) (h : items read fuel acc s = .ok (found, s₁))
    (hclose : closeList s₁ = .ok rest) :
    ∃ (entries : List (α × Bytes)) (body : Bytes),
      RowFrom acc.isEmpty (fun e text => e.2 = text) entries body ∧
      (∀ e ∈ entries, Text e.2 ∧ Reads read e.2 e.1) ∧
      s = body ++ Octet.closeBracket :: rest ∧
      found = (entries.map Prod.fst).reverse ++ acc := by
  induction fuel generalizing acc s with
  | zero => cases h
  | succ fuel ih =>
    rcases items_ok_iff.mp h with ⟨_, rfl, rfl⟩ | ⟨s₂, x, s₃, hnext, hx, hmore⟩
    · obtain ⟨blank, hblank, rfl⟩ := rowFrom_nil (closeList_ok_iff.mp hclose)
      exact ⟨[], blank, hblank, List.forall_mem_nil _, rfl, rfl⟩
    · obtain ⟨entries, body, hbody, hentries, rfl, rfl⟩ := ih hmore
      have hstops : Stops (body ++ Octet.closeBracket :: rest) :=
        RowTail.stops hbody (by decide)
      obtain ⟨before, text, hbefore, htext, rfl, hreads⟩ := hread _ _ _ hx hstops
      obtain ⟨lead, hlead, rfl⟩ := lead_of_nextItem? hnext
      refine ⟨(x, text) :: entries, _, hlead.row hbefore rfl hbody,
        List.forall_mem_cons.mpr ⟨⟨htext, hreads⟩, hentries⟩, by simp, by simp⟩

/-- The members of an object that is read are those of a row, and they have been read one after
another. -/
theorem members_sound {read : String → σ → Bytes → Except Fault (σ × Bytes)} {y z : σ}
    (hread : ∀ name y, SoundMember (read name y))
    (h : members read fuel first y s = .ok (z, s₁)) (hclose : closeObject s₁ = .ok rest) :
    ∃ (entries : List (String × Bytes)) (body : Bytes),
      RowFrom first (fun e => NamedMember e.1 e.2) entries body ∧ (∀ e ∈ entries, Text e.2) ∧
      s = body ++ Octet.closeBrace :: rest ∧ Folds read Prod.fst Prod.snd y entries z := by
  induction fuel generalizing first y s with
  | zero => cases h
  | succ fuel ih =>
    rcases members_ok_iff.mp h with ⟨_, rfl, rfl⟩ | ⟨name, s₂, y', s₃, hnext, hy, hmore⟩
    · obtain ⟨blank, hblank, rfl⟩ := rowFrom_nil (closeObject_ok_iff.mp hclose)
      exact ⟨[], blank, hblank, List.forall_mem_nil _, rfl, .nil _⟩
    · obtain ⟨entries, body, hbody, htexts, rfl, hfolds⟩ := ih hmore
      have hstops : Stops (body ++ Octet.closeBrace :: rest) := RowTail.stops hbody (by decide)
      obtain ⟨before, after, text, hbefore, hafter, htext, rfl, hreads⟩ :=
        hread _ _ _ _ _ hy hstops
      obtain ⟨lead, literal, hlead, hliteral, rfl⟩ := lead_of_nextName? hnext
      have hmember : NamedMember name text
          (literal ++ (before ++ Octet.colon :: (after ++ text))) :=
        ⟨literal, hliteral, before, after, hbefore, hafter, rfl⟩
      exact ⟨(name, text) :: entries, _, hlead.row blank_nil hmember hbody,
        List.forall_mem_cons.mpr ⟨htext, htexts⟩, by simp, .cons hreads hfolds⟩

/-! ### Splitting a text -/

variable {entries entries' : List (String × Bytes)} {texts texts' : List Bytes}

theorem readText_sound : Sound readText := by
  intro s x rest h hrest
  obtain ⟨rest', hskip, hx⟩ := bind_ok_iff.mp h
  cases hx
  obtain ⟨before, text, hbefore, htext, rfl⟩ := Skip.value_sound hskip
  have hread := htext.readText before rest hbefore hrest
  rw [h, Except.ok.injEq, Prod.mk.injEq] at hread
  refine ⟨before, text, hbefore, htext, rfl, ?_⟩
  rw [hread.1]
  exact htext.readText

theorem readEntry_sound (name : String) (start : List (String × Bytes)) :
    SoundMember (readEntry name start) :=
  readText_sound.member fun text => start ++ [(name, text)]

def itemsOf? (s : Bytes) : Option (List Bytes) :=
  match s with
  | [] => none
  | b :: body =>
    match items readText (body.length + 1) [] body with
    | .ok (texts, rest) =>
      if b = Octet.openBracket ∧ (closeList rest).toOption = some [] then some texts.reverse
      else none
    | .error _ => none

theorem ListText.itemsOf? (h : ListText texts s) : Json.itemsOf? s = some texts := by
  obtain ⟨body, hbody, htexts, rfl⟩ := h
  have hread : ∀ item ∈ texts, ∀ text, item = text → StartsItem text ∧
      Reads readText text (id item) := by
    rintro item hitem _ rfl
    exact ⟨(htexts item hitem).starts, (htexts item hitem).readText⟩
  obtain ⟨blank, hblank, hitems⟩ :=
    items_row [] hbody (hbody.length_lt Octet.closeBracket []) hread
  have hclose : closeList (blank ++ [Octet.closeBracket]) = .ok [] := closeList_end hblank
  rw [inBrackets, Json.itemsOf?, hitems]
  simp [hclose, Except.toOption]

def membersOf? (s : Bytes) : Option (List (String × Bytes)) :=
  match s with
  | [] => none
  | b :: body =>
    match members readEntry (body.length + 1) true [] body with
    | .ok (entries, rest) =>
      if b = Octet.openBrace ∧ (closeObject rest).toOption = some [] then some entries else none
    | .error _ => none

theorem ObjectText.membersOf? (h : ObjectText entries s) : Json.membersOf? s = some entries := by
  obtain ⟨body, hbody, htexts, rfl⟩ := h
  obtain ⟨blank, hblank, hmembers⟩ := members_row [] hbody (readEntry_folds [] htexts)
    (hbody.length_lt Octet.closeBrace [])
  have hclose : closeObject (blank ++ [Octet.closeBrace]) = .ok [] := closeObject_end hblank
  rw [inBraces, Json.membersOf?, hmembers]
  simp [hclose, Except.toOption]

theorem ListText.unique (h : ListText texts s) (h' : ListText texts' s) : texts = texts' :=
  Option.some.inj (h.itemsOf?.symm.trans h'.itemsOf?)

theorem ObjectText.unique (h : ObjectText entries s) (h' : ObjectText entries' s) :
    entries = entries' :=
  Option.some.inj (h.membersOf?.symm.trans h'.membersOf?)

theorem itemsOf?_eq_some : itemsOf? s = some texts ↔ ListText texts s := by
  constructor
  · intro h
    have hlist : ∃ texts, ListText texts s := by
      rw [itemsOf?.eq_def] at h
      split at h
      · cases h
      · split at h
        · next hitems =>
          split_ifs at h with hends
          obtain ⟨rfl, hclose⟩ := hends
          obtain ⟨entries, body, hbody, hentries, rfl, _⟩ :=
            items_sound readText_sound hitems (eq_ok_of_toOption hclose)
          obtain ⟨texts, hrow, htexts⟩ := Row.exchange (Q := Eq) (R := Text) hbody
            fun e he text htext => ⟨e.2, htext, (hentries e he).1⟩
          exact ⟨texts, body, hrow, htexts, rfl⟩
        · cases h
    obtain ⟨texts', hlist⟩ := hlist
    obtain rfl := Option.some.inj (hlist.itemsOf?.symm.trans h)
    exact hlist
  · exact ListText.itemsOf?

instance : Decidable (ListText texts s) := decidable_of_iff _ itemsOf?_eq_some

theorem membersOf?_eq_some : membersOf? s = some entries ↔ ObjectText entries s := by
  constructor
  · intro h
    have hobject : ∃ entries, ObjectText entries s := by
      rw [membersOf?.eq_def] at h
      split at h
      · cases h
      · split at h
        · next hmembers =>
          split_ifs at h with hends
          obtain ⟨rfl, hclose⟩ := hends
          obtain ⟨entries, body, hbody, htexts, rfl, _⟩ :=
            members_sound readEntry_sound hmembers (eq_ok_of_toOption hclose)
          exact ⟨entries, body, hbody, htexts, rfl⟩
        · cases h
    obtain ⟨entries', hobject⟩ := hobject
    obtain rfl := Option.some.inj (hobject.membersOf?.symm.trans h)
    exact hobject
  · exact ObjectText.membersOf?

instance : Decidable (ObjectText entries s) := decidable_of_iff _ membersOf?_eq_some

end Loops

end GzipStage.Json
