import GzipStage.Proofs.Json.Record
import GzipStage.Proofs.Json.Sound.Read

/-! What is read as a record is written as one, by name or by position. -/
namespace GzipStage.Json

variable {α σ : Type} {levels below : Nat} {name : String} {fields : List (Field σ)}
  {initial x y z : σ} {seen seen' : List String} {s s₁ rest text body : Bytes} {items : List Bytes}
  {entries : List (String × Bytes)} {first : Bool}

def SoundFields (fields : List (Field σ)) : Prop :=
  ∀ field ∈ fields, ∀ levels x, Sound (field.read levels x)

theorem field_sound {reader : Reader α} {set : σ → α → σ} (h : Sound (reader levels)) (x : σ) :
    Sound ((Field.of name reader set).read levels x) := by
  intro s y rest hread hrest
  obtain ⟨a, ha, rfl⟩ := field_ok_iff.mp hread
  obtain ⟨before, text, hbefore, htext, rfl, hreads⟩ := h _ _ _ ha hrest
  refine ⟨before, text, hbefore, htext, rfl, ?_⟩
  intro before' rest' hbefore' hrest'
  exact field_ok_iff.mpr ⟨a, hreads before' rest' hbefore' hrest', rfl⟩

theorem reads_field_iff {reader : Reader α} {set : σ → α → σ} (h : Sound (reader levels))
    (htext : Text text) :
    Reads ((Field.of name reader set).read levels x) text y ↔
      ∃ a, Reads (reader levels) text a ∧ set x a = y := by
  rw [(field_sound h x).reads_iff htext, field_ok_iff]
  simp only [h.reads_iff htext]

namespace Record

/-! ### By name -/

theorem member_sound (hfields : SoundFields fields) (levels : Nat) (name : String)
    (state : σ × List String) : SoundMember (member fields levels name state) := by
  obtain ⟨x, seen⟩ := state
  rintro s ⟨y, seen'⟩ rest h hrest
  rcases member_ok_iff.mp h with ⟨hnone, s₁, hcolon, hskip, rfl, rfl⟩ |
    ⟨field, hsome, hseen, s₁, hcolon, hread, rfl⟩
  · obtain ⟨before, hbefore, rfl⟩ := skipBlanks_eq_cons (readColon_ok_iff.mp hcolon)
    obtain ⟨after, text, hafter, htext, rfl⟩ := Skip.value_sound hskip
    exact ⟨before, after, text, hbefore, hafter, htext, rfl, member_other hnone htext⟩
  · obtain ⟨before, hbefore, rfl⟩ := skipBlanks_eq_cons (readColon_ok_iff.mp hcolon)
    have hfield := hfields field (List.mem_of_find?_eq_some hsome) levels x
    obtain ⟨after, text, hafter, htext, rfl, hreads⟩ := hfield _ _ _ hread hrest
    exact ⟨before, after, text, hbefore, hafter, htext, rfl, member_field hsome hseen hreads⟩

/-- A member that is read is either of no field, or of a field that has not been met. -/
theorem of_readsMember (hfields : SoundFields fields) (htext : Text text)
    (h : ReadsMember (member fields levels name (x, seen)) text (y, seen')) :
    (fields.find? (·.name = name) = none ∧ y = x ∧ seen' = seen) ∨
      ∃ field, fields.find? (·.name = name) = some field ∧ name ∉ seen ∧
        Reads (field.read levels x) text y ∧ seen' = name :: seen := by
  have hcolon : readColon ([] ++ Octet.colon :: ([] ++ (text ++ []))) = .ok text := by
    rw [readColon_next blank_nil, List.nil_append, List.append_nil]
  rcases member_ok_iff.mp (h [] [] [] blank_nil blank_nil stops_nil) with
    ⟨hnone, _, _, _, rfl, rfl⟩ | ⟨field, hsome, hseen, s₁, hs₁, hread, rfl⟩
  · exact .inl ⟨hnone, rfl, rfl⟩
  · rw [hcolon, Except.ok.injEq] at hs₁
    have hfield := hfields field (List.mem_of_find?_eq_some hsome) levels x
    exact .inr ⟨field, hsome, hseen, (hfield.reads_iff htext).mpr (hs₁ ▸ hread), rfl⟩

/-! ### By position -/

/-- Reading values in the order of the fields takes one record to another. -/
inductive Places (levels : Nat) : List (Field σ) → σ → List Bytes → σ → Prop
  | done (fields : List (Field σ)) (x : σ) : Places levels fields x [] x
  | next {field : Field σ} {fields : List (Field σ)} {x y z : σ} {text : Bytes}
      {texts : List Bytes} (hread : Reads (field.read levels x) text y)
      (hmore : Places levels fields y texts z) : Places levels (field :: fields) x (text :: texts) z

theorem Places.length_le (h : Places levels fields x items z) : items.length ≤ fields.length := by
  induction h with
  | done => exact Nat.zero_le _
  | next _ _ ih => exact Nat.succ_le_succ ih

theorem positional_sound (hfields : SoundFields fields)
    (h : positional levels fields first x s = .ok (z, s₁)) (hclose : closeList s₁ = .ok rest) :
    ∃ (items : List Bytes) (body : Bytes), RowFrom first Eq items body ∧
      (∀ item ∈ items, Text item) ∧ s = body ++ Octet.closeBracket :: rest ∧
      Places levels fields x items z := by
  induction fields generalizing first x s with
  | nil =>
    cases h
    obtain ⟨blank, hblank, rfl⟩ := rowFrom_nil (closeList_ok_iff.mp hclose)
    exact ⟨[], blank, hblank, List.forall_mem_nil _, rfl, .done _ _⟩
  | cons field fields ih =>
    obtain ⟨hfield, hmore⟩ := List.forall_mem_cons.mp hfields
    rcases positional_ok_iff.mp h with ⟨_, rfl, rfl⟩ | ⟨s₂, y, s₃, hnext, hy, hrest⟩
    · obtain ⟨blank, hblank, rfl⟩ := rowFrom_nil (closeList_ok_iff.mp hclose)
      exact ⟨[], blank, hblank, List.forall_mem_nil _, rfl, .done _ _⟩
    · obtain ⟨items, body, hbody, htexts, rfl, hplaces⟩ := ih hmore hrest
      have hstops : Stops (body ++ Octet.closeBracket :: rest) := RowTail.stops hbody (by decide)
      obtain ⟨before, text, hbefore, htext, rfl, hreads⟩ := hfield levels x _ _ _ hy hstops
      obtain ⟨lead, hlead, rfl⟩ := lead_of_nextItem? hnext
      exact ⟨text :: items, _, hlead.row hbefore rfl hbody,
        List.forall_mem_cons.mpr ⟨htext, htexts⟩, by simp, .next hreads hplaces⟩

theorem positional_row (rest : Bytes) (hbody : RowFrom first Eq items body)
    (htexts : ∀ item ∈ items, Text item) (h : Places levels fields x items z) :
    ∃ blank, Blank blank ∧
      positional levels fields first x (body ++ Octet.closeBracket :: rest) =
        .ok (z, blank ++ Octet.closeBracket :: rest) := by
  induction h generalizing first body with
  | done fields x =>
    refine ⟨body, hbody.blank, ?_⟩
    cases fields with
    | nil => rfl
    | cons field fields => exact positional_ok_iff.mpr (.inl ⟨nextItem?_end hbody.blank, rfl, rfl⟩)
  | @next field fields x y z text texts hread hmore ih =>
    obtain ⟨htext, htexts⟩ := List.forall_mem_cons.mp htexts
    have hread (tail : Bytes) (htail : Stops tail) :
        field.read levels x (text ++ tail) = .ok (y, tail) := hread [] tail blank_nil htail
    cases first with
    | true =>
      cases hbody with
      | @first _ _ before _ more hbefore heq htail =>
        subst heq
        have htail : RowFrom false Eq texts _ := htail
        obtain ⟨blank, hblank, hdone⟩ := ih htail htexts
        refine ⟨blank, hblank, positional_ok_iff.mpr (.inr ⟨_, _, _, ?_, hread _ ?_, hdone⟩)⟩
        · rw [List.append_assoc, List.append_assoc]
          exact nextItem?_first hbefore htext.starts
        · exact htail.stops (by decide)
    | false =>
      cases hbody with
      | @item _ _ before after _ more hbefore hafter heq htail =>
        subst heq
        have htail : RowFrom false Eq texts _ := htail
        obtain ⟨blank, hblank, hdone⟩ := ih htail htexts
        refine ⟨blank, hblank, positional_ok_iff.mpr (.inr ⟨_, _, _, ?_, hread _ ?_, hdone⟩)⟩
        · rw [List.append_assoc, List.cons_append, List.append_assoc, List.append_assoc]
          exact nextItem?_next hbefore hafter htext.starts
        · exact htail.stops (by decide)

/-- The list of the values and the object that has them as members are read along the same steps.
`all` are the fields of the record and `fields` those that have not been met. -/
theorem places_iff {all : List (Field σ)} (hall : SoundFields all)
    (hfind : ∀ field ∈ fields, all.find? (·.name = field.name) = some field)
    (hnames : (fields.map Field.name).Nodup) (hnew : ∀ field ∈ fields, field.name ∉ seen)
    (htexts : ∀ item ∈ items, Text item) (hlength : items.length ≤ fields.length) :
    Places levels fields x items z ↔ ∃ seen', Folds (member all levels) Prod.fst Prod.snd (x, seen)
      ((fields.map Field.name).zip items) (z, seen') := by
  have hdone (fields : List (Field σ)) (x : σ) (seen : List String) : Places levels fields x [] z ↔
      ∃ seen', Folds (member all levels) Prod.fst Prod.snd (x, seen) [] (z, seen') := by
    constructor
    · intro h
      cases h
      exact ⟨seen, .nil _⟩
    · rintro ⟨seen', h⟩
      cases h
      exact .done _ _
  induction fields generalizing x seen items with
  | nil =>
    obtain rfl := List.eq_nil_of_length_eq_zero (Nat.le_zero.mp hlength)
    exact hdone [] x seen
  | cons field fields ih =>
    cases items with
    | nil => exact hdone _ x seen
    | cons text items =>
      obtain ⟨hfind, hfinds⟩ := List.forall_mem_cons.mp hfind
      obtain ⟨hname, hnames⟩ := List.nodup_cons.mp hnames
      obtain ⟨hseen, hnew⟩ := List.forall_mem_cons.mp hnew
      obtain ⟨htext, htexts⟩ := List.forall_mem_cons.mp htexts
      have hnew' : ∀ other ∈ fields, other.name ∉ field.name :: seen := by
        intro other hother hmem
        rcases List.mem_cons.mp hmem with hsame | hmem
        · exact hname (hsame ▸ List.mem_map_of_mem hother)
        · exact hnew other hother hmem
      have hmore {y : σ} := ih (x := y) hfinds hnames hnew' htexts (Nat.le_of_succ_le_succ hlength)
      constructor
      · intro h
        cases h with
        | next hread hplaces =>
          obtain ⟨seen', hfolds⟩ := hmore.mp hplaces
          exact ⟨seen', .cons (member_field hfind hseen hread) hfolds⟩
      · rintro ⟨seen', hfolds⟩
        cases hfolds with
        | @cons _ _ _ state _ hread hfolds =>
          obtain ⟨y, seen₁⟩ := state
          rcases of_readsMember hall htext hread with ⟨hnone, _⟩ | ⟨field', hsome, _, hreads, rfl⟩
          · rw [hfind] at hnone
            cases hnone
          · obtain rfl := Option.some.inj (hfind.symm.trans hsome)
            exact .next hreads (hmore.mpr ⟨seen', hfolds⟩)

end Record

/-- How a record is written: the members of an object, or the values of a list. -/
inductive Written (fields : List (Field σ)) (initial : σ) (below : Nat) (x : σ) (s : Bytes) : Prop
  | object {entries : List (String × Bytes)} {seen : List String} (hs : ObjectText entries s)
      (hfolds : Folds (Record.member fields below) Prod.fst Prod.snd (initial, []) entries
        (x, seen))
  | list {items : List Bytes} (hs : ListText items s)
      (hplaces : Record.Places below fields initial items x)

theorem Written.isText (h : Written fields initial below x s) : Text s := by
  cases h with
  | object hs _ => exact hs.isText
  | list hs _ => exact hs.isText

theorem Written.reads (h : Written fields initial below x s) :
    Reads (record name fields initial (below + 1)) s x := by
  intro before rest hbefore _
  cases h with
  | object hs hfolds =>
    obtain ⟨body, hbody, _, rfl⟩ := hs
    obtain ⟨blank, hblank, hmembers⟩ :=
      members_row rest hbody hfolds (hbody.length_lt Octet.closeBrace rest)
    exact record_ok_iff.mpr ⟨below, rfl, .inr ⟨_, _, _, skipBlanks_inBraces hbefore, hmembers,
      closeObject_end hblank⟩⟩
  | list hs hplaces =>
    obtain ⟨body, hbody, htexts, rfl⟩ := hs
    have hrow : RowFrom true Eq _ body := hbody
    obtain ⟨blank, hblank, hpositional⟩ := Record.positional_row rest hrow htexts hplaces
    exact record_ok_iff.mpr ⟨below, rfl, .inl ⟨_, _, skipBlanks_inBrackets hbefore, hpositional,
      closeList_end hblank⟩⟩

theorem written_of_record (hfields : SoundFields fields)
    (h : record name fields initial levels s = .ok (x, rest)) :
    ∃ below before text, levels = below + 1 ∧ Blank before ∧ s = before ++ (text ++ rest) ∧
      Written fields initial below x text := by
  obtain ⟨below, rfl, ⟨s₁, s₂, hskip, hpositional, hclose⟩ |
    ⟨s₁, seen, s₂, hskip, hmembers, hclose⟩⟩ := record_ok_iff.mp h
  · obtain ⟨before, hbefore, rfl⟩ := skipBlanks_eq_cons hskip
    obtain ⟨items, body, hbody, htexts, rfl, hplaces⟩ :=
      Record.positional_sound hfields hpositional hclose
    exact ⟨below, before, inBrackets body, rfl, hbefore, by simp [inBrackets],
      .list ⟨body, hbody, htexts, rfl⟩ hplaces⟩
  · obtain ⟨before, hbefore, rfl⟩ := skipBlanks_eq_cons hskip
    obtain ⟨entries, body, hbody, htexts, rfl, hfolds⟩ :=
      members_sound (Record.member_sound hfields below) hmembers hclose
    exact ⟨below, before, inBraces body, rfl, hbefore, by simp [inBraces],
      .object ⟨body, hbody, htexts, rfl⟩ hfolds⟩

theorem record_sound (hfields : SoundFields fields) (levels : Nat) :
    Sound (record name fields initial levels) := by
  intro s x rest h _
  obtain ⟨below, before, text, rfl, hbefore, rfl, hwritten⟩ := written_of_record hfields h
  exact ⟨before, text, hbefore, hwritten.isText, rfl, hwritten.reads⟩

theorem reads_record_iff (hfields : SoundFields fields) (hs : Text s) :
    Reads (record name fields initial (below + 1)) s x ↔ Written fields initial below x s := by
  constructor
  · intro hreads
    have hread := ((record_sound hfields _).reads_iff hs).mp hreads
    obtain ⟨below', before, text, hbelow, hbefore, hsplit, hwritten⟩ :=
      written_of_record hfields hread
    cases hbelow
    have hsame : [] ++ (s ++ []) = before ++ (text ++ []) := by
      rw [List.nil_append, List.append_nil]
      exact hsplit
    obtain ⟨rfl, _⟩ :=
      hs.unique hwritten.isText blank_nil hbefore stops_nil stops_nil hsame
    exact hwritten
  · exact Written.reads

/-- The members of an object, or those that a list would have as an object.  The list may be cut
short but not longer than the record. -/
inductive RecordForm (names : List String) : List (String × Bytes) → Bytes → Prop
  | object {entries : List (String × Bytes)} {s : Bytes} (hs : ObjectText entries s) :
      RecordForm names entries s
  | list {items : List Bytes} {s : Bytes} (hlength : items.length ≤ names.length)
      (hs : ListText items s) : RecordForm names (names.zip items) s

theorem find?_of_nodup (hnames : (fields.map Field.name).Nodup) :
    ∀ field ∈ fields, fields.find? (·.name = field.name) = some field := by
  induction fields with
  | nil => exact List.forall_mem_nil _
  | cons field fields ih =>
    obtain ⟨hname, hmore⟩ := List.nodup_cons.mp hnames
    refine List.forall_mem_cons.mpr ⟨List.find?_cons_of_pos (decide_eq_true rfl), ?_⟩
    intro other hother
    have hne : ¬ field.name = other.name := fun hsame => hname (hsame ▸ List.mem_map_of_mem hother)
    rw [List.find?_cons_of_neg (by simpa using hne)]
    exact ih hmore other hother

theorem Written.form (h : Written fields initial below x s) :
    ∃ entries, RecordForm (fields.map Field.name) entries s := by
  cases h with
  | object hs _ => exact ⟨_, .object hs⟩
  | list hs hplaces =>
    refine ⟨_, .list ?_ hs⟩
    rw [List.length_map]
    exact hplaces.length_le

theorem written_iff (hfields : SoundFields fields) (hnames : (fields.map Field.name).Nodup)
    (h : RecordForm (fields.map Field.name) entries s) :
    Written fields initial below x s ↔ ∃ seen,
      Folds (Record.member fields below) Prod.fst Prod.snd (initial, []) entries (x, seen) := by
  cases h with
  | object hs =>
    constructor
    · intro hwritten
      cases hwritten with
      | object hs' hfolds => exact ⟨_, hs.unique hs' ▸ hfolds⟩
      | list hs' _ => exact absurd hs' hs.not_listText
    · rintro ⟨seen, hfolds⟩
      exact .object hs hfolds
  | @list items _ hlength hs =>
    rw [List.length_map] at hlength
    have htexts : ∀ item ∈ items, Text item := by
      obtain ⟨_, _, htexts, _⟩ := hs
      exact htexts
    rw [← Record.places_iff hfields (find?_of_nodup hnames) hnames
      (fun _ _ => List.not_mem_nil) htexts hlength]
    constructor
    · intro hwritten
      cases hwritten with
      | object hs' _ => exact absurd hs hs'.not_listText
      | list hs' hplaces => exact hs.unique hs' ▸ hplaces
    · exact .list hs

theorem not_written_of_long (hs : ListText items s) (hlength : fields.length < items.length) :
    ¬ Written fields initial below x s := by
  intro hwritten
  cases hwritten with
  | object hs' _ => exact hs'.not_listText hs
  | list hs' hplaces =>
    obtain rfl := hs.unique hs'
    exact Nat.not_le.mpr hlength hplaces.length_le

end GzipStage.Json
