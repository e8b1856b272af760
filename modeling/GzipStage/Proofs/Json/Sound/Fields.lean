import GzipStage.Proofs.Json.Sound.Record
import Mathlib.Data.List.Nodup

/-! A record holds in each field what was written for it. -/
namespace GzipStage.Json

/-- A field of a record: its name, how its value is read, put into the record and looked up. -/
structure Access (σ : Type) where
  {α : Type}
  name : String
  reader : Reader α
  set : σ → α → σ
  get : σ → α

variable {σ : Type} {below : Nat} {initial x y : σ} {seen seen' : List String}
  {as : List (Access σ)} {a : Access σ} {entries : List (String × Bytes)} {name : String}
  {text s : Bytes}

def Access.field (a : Access σ) : Field σ := .of a.name a.reader a.set

/-- How the field is written in a record that starts from `initial` and becomes `x`. -/
def Access.slot (below : Nat) (initial x : σ) (a : Access σ) : Slot where
  name := a.name
  optional := a.get x = a.get initial
  spelled text := Reads (a.reader below) text (a.get x)

@[simp]
theorem Access.slot_name (a : Access σ) : (a.slot below initial x).name = a.name := rfl

/-- The fields do not disturb one another and make up the record. -/
structure Separate (as : List (Access σ)) : Prop where
  sound : ∀ a ∈ as, ∀ levels, Sound (a.reader levels)
  names : (as.map Access.name).Nodup
  own : ∀ a ∈ as, ∀ x v, a.get (a.set x v) = v
  other : ∀ a ∈ as, ∀ b ∈ as, b.name ≠ a.name → ∀ x v, a.get (b.set x v) = a.get x
  ext : ∀ x y, (∀ a ∈ as, a.get x = a.get y) → x = y

/-- The members fill the slots: none twice, and those that are missing may be missing. -/
structure Filled (slots : List Slot) (entries : List (String × Bytes)) : Prop where
  once : ∀ slot ∈ slots, (entries.map Prod.fst).count slot.name ≤ 1
  missing : ∀ slot ∈ slots, slot.name ∉ entries.map Prod.fst → slot.optional
  written : ∀ slot ∈ slots, ∀ text, (slot.name, text) ∈ entries → slot.spelled text

/-- What is written for one field will do for another one, and so will its absence. -/
structure Slot.Serves (slot slot' : Slot) : Prop where
  name : slot.name = slot'.name
  optional : slot.optional → slot'.optional
  spelled : ∀ text, slot.spelled text → slot'.spelled text

theorem Slot.exists_serves {slots slots' : List Slot} (h : List.Forall₂ Slot.Serves slots slots') :
    ∀ slot' ∈ slots', ∃ slot ∈ slots, slot.Serves slot' := by
  induction h with
  | nil => exact List.forall_mem_nil _
  | cons hserves _ ih =>
    refine List.forall_mem_cons.mpr ⟨⟨_, List.mem_cons_self, hserves⟩, fun slot' hslot' => ?_⟩
    obtain ⟨slot, hslot, hserves⟩ := ih slot' hslot'
    exact ⟨slot, List.mem_cons_of_mem _ hslot, hserves⟩

namespace Filled

variable {slots : List Slot} {entries' front back : List (String × Bytes)} {text' : Bytes}

theorem perm (h : Filled slots entries) (hperm : entries.Perm entries') :
    Filled slots entries' := by
  have hnames : (entries.map Prod.fst).Perm (entries'.map Prod.fst) := hperm.map _
  constructor
  · intro slot hslot
    rw [← hnames.count_eq]
    exact h.once slot hslot
  · intro slot hslot hnot
    exact h.missing slot hslot fun hmem => hnot (hnames.mem_iff.mp hmem)
  · intro slot hslot text hmem
    exact h.written slot hslot text (hperm.mem_iff.mpr hmem)

theorem replace (h : Filled slots (front ++ (name, text) :: back))
    (hsame : ∀ slot ∈ slots, slot.name = name → slot.spelled text → slot.spelled text') :
    Filled slots (front ++ (name, text') :: back) := by
  have hnames : (front ++ (name, text') :: back).map Prod.fst =
      (front ++ (name, text) :: back).map Prod.fst := by
    simp
  constructor
  · intro slot hslot
    rw [hnames]
    exact h.once slot hslot
  · intro slot hslot hnot
    rw [hnames] at hnot
    exact h.missing slot hslot hnot
  · intro slot hslot other hmem
    have hwritten := h.written slot hslot
    simp only [List.mem_append, List.mem_cons, Prod.mk.injEq] at hmem hwritten
    rcases hmem with hmem | ⟨hname, rfl⟩ | hmem
    · exact hwritten other (.inl hmem)
    · exact hsame slot hslot hname (hwritten text (.inr (.inl ⟨hname, rfl⟩)))
    · exact hwritten other (.inr (.inr hmem))

theorem iff_forall :
    Filled slots entries ↔ ∀ slot ∈ slots, (entries.map Prod.fst).count slot.name ≤ 1 ∧
      (slot.name ∉ entries.map Prod.fst → slot.optional) ∧
      ∀ text, (slot.name, text) ∈ entries → slot.spelled text := by
  constructor
  · intro h slot hslot
    exact ⟨h.once slot hslot, h.missing slot hslot, h.written slot hslot⟩
  · intro h
    exact ⟨fun slot hslot => (h slot hslot).1, fun slot hslot => (h slot hslot).2.1,
      fun slot hslot => (h slot hslot).2.2⟩

theorem cons_iff (hother : ∀ slot ∈ slots, slot.name ≠ name) :
    Filled slots ((name, text) :: entries) ↔ Filled slots entries := by
  rw [iff_forall, iff_forall]
  refine forall₂_congr fun slot hslot => ?_
  have hne := hother slot hslot
  have hentry (t : Bytes) :
      (slot.name, t) ∈ (name, text) :: entries ↔ (slot.name, t) ∈ entries := by
    rw [List.mem_cons, or_iff_right fun h => hne (congrArg Prod.fst h)]
  simp only [List.map_cons, List.count_cons_of_ne hne.symm, List.mem_cons, hne, false_or, hentry]

theorem exists_written {slot : Slot} (h : Filled slots entries) (hslot : slot ∈ slots)
    (hrequired : ¬ slot.optional) : ∃ text, (slot.name, text) ∈ entries ∧ slot.spelled text := by
  have hmem : slot.name ∈ entries.map Prod.fst := by
    by_contra hnot
    exact hrequired (h.missing slot hslot hnot)
  obtain ⟨⟨name, text⟩, hentry, hname⟩ := List.mem_map.mp hmem
  obtain rfl : name = slot.name := hname
  exact ⟨text, hentry, h.written slot hslot text hentry⟩

/-- What is good for the slots of one record may be good for those of another. -/
theorem serves {slots' : List Slot} (h : Filled slots entries)
    (hslots : List.Forall₂ Slot.Serves slots slots') : Filled slots' entries := by
  refine iff_forall.mpr fun slot' hslot' => ?_
  obtain ⟨slot, hslot, hserves⟩ := Slot.exists_serves hslots slot' hslot'
  refine ⟨?_, fun hnot => ?_, fun text hentry => ?_⟩
  · exact hserves.name ▸ h.once slot hslot
  · exact hserves.optional (h.missing slot hslot (hserves.name.symm ▸ hnot))
  · exact hserves.spelled text (h.written slot hslot text (hserves.name.symm ▸ hentry))

end Filled

def Textual (slots : List Slot) : Prop := ∀ slot ∈ slots, ∀ text, slot.spelled text → Text text

theorem RecordText.filled {slots : List Slot} (h : RecordText slots s) (htextual : Textual slots) :
    ∃ entries, ObjectText entries s ∧ Filled slots entries := by
  obtain ⟨entries, body, hbody, rfl, honce, hmissing, hentries⟩ := h
  refine ⟨entries, ⟨body, hbody, fun e he => ?_, rfl⟩, honce, hmissing, ?_⟩
  · obtain ⟨hknown, hother⟩ := hentries e he
    by_cases hname : ∃ slot ∈ slots, slot.name = e.1
    · obtain ⟨slot, hslot, hname⟩ := hname
      exact htextual slot hslot e.2 (hknown slot hslot hname)
    · exact hother fun slot hslot hsame => hname ⟨slot, hslot, hsame⟩
  · intro slot hslot text hentry
    exact (hentries _ hentry).1 slot hslot rfl

theorem RecordText.isText {slots : List Slot} (h : RecordText slots s) (htextual : Textual slots) :
    Text s := by
  obtain ⟨entries, hs, _⟩ := h.filled htextual
  exact hs.isText

namespace Separate

variable (h : Separate as)

include h in
theorem soundFields : SoundFields (as.map Access.field) := by
  intro field hfield levels x
  obtain ⟨a, ha, rfl⟩ := List.mem_map.mp hfield
  exact field_sound (h.sound a ha levels) x

theorem field_names (as : List (Access σ)) :
    (as.map Access.field).map Field.name = as.map Access.name := by
  rw [List.map_map]
  rfl

include h in
theorem nodup_fields : ((as.map Access.field).map Field.name).Nodup :=
  field_names as ▸ h.names

theorem find?_access (as : List (Access σ)) (name : String) :
    ((as.map Access.field).find? (·.name = name) = none ∧ ∀ a ∈ as, a.name ≠ name) ∨
      ∃ a ∈ as, a.name = name ∧ (as.map Access.field).find? (·.name = name) = some a.field := by
  cases hfind : (as.map Access.field).find? (·.name = name) with
  | none =>
    refine .inl ⟨rfl, fun a ha => ?_⟩
    have hnot := List.find?_eq_none.mp hfind a.field (List.mem_map_of_mem ha)
    exact fun hname => hnot (decide_eq_true hname)
  | some field =>
    obtain ⟨a, ha, rfl⟩ := List.mem_map.mp (List.mem_of_find?_eq_some hfind)
    have hname := List.find?_some hfind
    exact .inr ⟨a, ha, of_decide_eq_true hname, rfl⟩

include h in
theorem reads_field (ha : a ∈ as) (htext : Text text)
    (hread : Reads (a.field.read below x) text y) : Reads (a.reader below) text (a.get y) := by
  obtain ⟨v, hv, rfl⟩ := (reads_field_iff (h.sound a ha below) htext).mp hread
  rwa [h.own a ha]

include h in
/-- A member either is that of a field, which had not been met and is read now, or leaves what the
field holds. -/
theorem step (ha : a ∈ as) (htext : Text text)
    (hread : ReadsMember (Record.member (as.map Access.field) below name (x, seen)) text
      (y, seen')) :
    (name = a.name ∧ a.name ∉ seen ∧ a.name ∈ seen' ∧ Reads (a.reader below) text (a.get y)) ∨
      name ≠ a.name ∧ a.get y = a.get x ∧ (a.name ∈ seen' ↔ a.name ∈ seen) := by
  rcases find?_access as name with ⟨hnone, hnames⟩ | ⟨b, hb, hname, hsome⟩
  · rcases Record.of_readsMember h.soundFields htext hread with ⟨_, rfl, rfl⟩ | ⟨_, hsome, _⟩
    · exact .inr ⟨(hnames a ha).symm, rfl, Iff.rfl⟩
    · rw [hnone] at hsome
      cases hsome
  · rcases Record.of_readsMember h.soundFields htext hread with
      ⟨hnone, _⟩ | ⟨field, hfield, hseen, hreads, rfl⟩
    · rw [hsome] at hnone
      cases hnone
    · obtain rfl := Option.some.inj (hsome.symm.trans hfield)
      by_cases hab : b.name = a.name
      · obtain rfl := List.inj_on_of_nodup_map h.names hb ha hab
        exact .inl ⟨hname.symm, hname ▸ hseen, hname ▸ List.mem_cons_self,
          h.reads_field hb htext hreads⟩
      · obtain ⟨v, _, rfl⟩ := (reads_field_iff (h.sound b hb below) htext).mp hreads
        refine .inr ⟨hname ▸ hab, h.other a ha b hb hab x v, ?_⟩
        rw [List.mem_cons, or_iff_right fun hsame => hab (hname.trans hsame.symm)]

include h in
/-- After all members a field has been met at most once, and holds what was written for it. -/
theorem run (ha : a ∈ as) (htexts : ∀ e ∈ entries, Text e.2)
    (hfolds : Folds (Record.member (as.map Access.field) below) Prod.fst Prod.snd (x, seen) entries
      (y, seen')) :
    (entries.map Prod.fst).count a.name ≤ (if a.name ∈ seen then 0 else 1) ∧
      (a.name ∉ entries.map Prod.fst → a.get y = a.get x) ∧
      ∀ text, (a.name, text) ∈ entries → Reads (a.reader below) text (a.get y) := by
  induction entries generalizing x seen with
  | nil =>
    cases hfolds
    exact ⟨Nat.zero_le _, fun _ => rfl, fun _ hmem => nomatch hmem⟩
  | cons e entries ih =>
    obtain ⟨name, text⟩ := e
    obtain ⟨htext, hmore⟩ := List.forall_mem_cons.mp htexts
    cases hfolds with
    | @cons _ _ _ state _ hread hfolds =>
      obtain ⟨x₁, seen₁⟩ := state
      obtain ⟨hcount, hmissing, hwritten⟩ := ih hmore hfolds
      rcases h.step ha htext hread with ⟨rfl, hseen, hmet, hreads⟩ | ⟨hne, hget, hseen⟩
      · rw [if_pos hmet, Nat.le_zero, List.count_eq_zero] at hcount
        refine ⟨?_, fun hnot => absurd List.mem_cons_self hnot, ?_⟩
        · rw [if_neg hseen, List.map_cons, List.count_cons_self, List.count_eq_zero.mpr hcount]
        · intro text' hmem
          rcases List.mem_cons.mp hmem with heq | hmem
          · cases heq
            rwa [hmissing hcount]
          · exact absurd (List.mem_map_of_mem hmem) hcount
      · refine ⟨?_, ?_, ?_⟩
        · rw [List.map_cons, List.count_cons_of_ne hne]
          simpa only [hseen] using hcount
        · intro hnot
          rw [hmissing fun hmem => hnot (List.mem_cons_of_mem _ hmem), hget]
        · intro text' hmem
          rcases List.mem_cons.mp hmem with heq | hmem
          · cases heq
            exact absurd rfl hne
          · exact hwritten text' hmem

include h in
/-- Members that can be read, and no field of which is met twice, are read. -/
theorem exists_folds (htexts : ∀ e ∈ entries, Text e.2)
    (hcount : ∀ a ∈ as, (entries.map Prod.fst).count a.name ≤ if a.name ∈ seen then 0 else 1)
    (hreads : ∀ a ∈ as, ∀ text, (a.name, text) ∈ entries → ∃ v, Reads (a.reader below) text v) :
    ∃ y seen', Folds (Record.member (as.map Access.field) below) Prod.fst Prod.snd (x, seen) entries
      (y, seen') := by
  induction entries generalizing x seen with
  | nil => exact ⟨x, seen, .nil _⟩
  | cons e entries ih =>
    obtain ⟨name, text⟩ := e
    obtain ⟨htext, hmore⟩ := List.forall_mem_cons.mp htexts
    have hreads' : ∀ a ∈ as, ∀ text, (a.name, text) ∈ entries →
        ∃ v, Reads (a.reader below) text v :=
      fun a ha text hmem => hreads a ha text (List.mem_cons_of_mem _ hmem)
    rcases find?_access as name with ⟨hnone, hnames⟩ | ⟨b, hb, rfl, hsome⟩
    · have hcount' : ∀ a ∈ as,
          (entries.map Prod.fst).count a.name ≤ if a.name ∈ seen then 0 else 1 := by
        intro a ha
        have hone := hcount a ha
        rwa [List.map_cons, List.count_cons_of_ne (hnames a ha).symm] at hone
      obtain ⟨y, seen', hfolds⟩ := ih hmore hcount' hreads'
      exact ⟨y, seen', .cons (Record.member_other hnone htext) hfolds⟩
    · obtain ⟨v, hv⟩ := hreads b hb text List.mem_cons_self
      have hone := hcount b hb
      rw [List.map_cons, List.count_cons_self] at hone
      have hseen : b.name ∉ seen := by
        intro hmem
        rw [if_pos hmem] at hone
        exact Nat.not_succ_le_zero _ hone
      have hcount' : ∀ a ∈ as,
          (entries.map Prod.fst).count a.name ≤ if a.name ∈ b.name :: seen then 0 else 1 := by
        intro a ha
        by_cases hab : b.name = a.name
        · rw [if_neg hseen] at hone
          rw [← hab, if_pos List.mem_cons_self]
          exact Nat.le_of_succ_le_succ hone
        · have hother := hcount a ha
          rw [List.map_cons, List.count_cons_of_ne hab] at hother
          simpa only [List.mem_cons, Ne.symm hab, false_or] using hother
      obtain ⟨y, seen', hfolds⟩ := ih (x := b.set x v) hmore hcount' hreads'
      have hfield : Reads (b.field.read below x) text (b.set x v) :=
        (reads_field_iff (h.sound b hb below) htext).mpr ⟨v, hv, rfl⟩
      exact ⟨y, seen', .cons (Record.member_field hsome hseen hfield) hfolds⟩

include h in
/-- The members are read into the record that holds what they say and nothing else. -/
theorem folds_iff (htexts : ∀ e ∈ entries, Text e.2) :
    (∃ seen, Folds (Record.member (as.map Access.field) below) Prod.fst Prod.snd (initial, [])
      entries (x, seen)) ↔ Filled (as.map (Access.slot below initial x)) entries := by
  constructor
  · rintro ⟨seen, hfolds⟩
    constructor
    · simp only [List.forall_mem_map]
      exact fun a ha => (h.run ha htexts hfolds).1
    · simp only [List.forall_mem_map]
      exact fun a ha => (h.run ha htexts hfolds).2.1
    · simp only [List.forall_mem_map]
      exact fun a ha => (h.run ha htexts hfolds).2.2
  · rintro ⟨honce, hmissing, hwritten⟩
    simp only [List.forall_mem_map] at honce hmissing hwritten
    obtain ⟨y, seen, hfolds⟩ : ∃ y seen, Folds (Record.member (as.map Access.field) below)
        Prod.fst Prod.snd (initial, []) entries (y, seen) :=
      h.exists_folds htexts (fun a ha => by simpa using honce a ha) fun a ha text hmem =>
        ⟨_, hwritten a ha text hmem⟩
    -- The record that is read and `x` hold the same in every field.
    have hsame : y = x := by
      apply h.ext
      intro a ha
      obtain ⟨_, hkept, hread⟩ := h.run ha htexts hfolds
      by_cases hmem : a.name ∈ entries.map Prod.fst
      · obtain ⟨⟨name, text⟩, he, hname⟩ := List.mem_map.mp hmem
        obtain rfl : name = a.name := hname
        exact (hread text he).inj (hwritten a ha text he)
      · rw [hkept hmem]
        exact (hmissing a ha hmem).symm
    exact ⟨seen, hsame ▸ hfolds⟩

end Separate

theorem RecordForm.isText {names : List String} (h : RecordForm names entries s) : Text s := by
  cases h with
  | object hs => exact hs.isText
  | list _ hs => exact hs.isText

theorem RecordForm.texts {names : List String} (h : RecordForm names entries s) :
    ∀ e ∈ entries, Text e.2 := by
  cases h with
  | object hs =>
    obtain ⟨_, _, htexts, _⟩ := hs
    exact htexts
  | list _ hs =>
    obtain ⟨_, _, htexts, _⟩ := hs
    exact fun e he => htexts e.2 (List.of_mem_zip he).2

/-- A record in either form is read as the record that its members fill. -/
theorem Separate.reads_record_iff (h : Separate as)
    (hform : RecordForm (as.map Access.name) entries s) :
    Reads (record name (as.map Access.field) initial (below + 1)) s x ↔
      Filled (as.map (Access.slot below initial x)) entries := by
  rw [← Separate.field_names] at hform
  rw [Json.reads_record_iff h.soundFields hform.isText,
    written_iff h.soundFields h.nodup_fields hform, h.folds_iff hform.texts]

/-- A record that is read is in one of the two forms, and no longer than the record. -/
theorem Separate.form_of_reads (h : Separate as) (hs : Text s)
    (hreads : Reads (record name (as.map Access.field) initial (below + 1)) s x) :
    (∃ entries, RecordForm (as.map Access.name) entries s) ∧
      ∀ items, ListText items s → items.length ≤ as.length := by
  have hwritten := (Json.reads_record_iff h.soundFields hs).mp hreads
  constructor
  · rw [← Separate.field_names]
    exact hwritten.form
  · intro items hitems
    by_contra hlong
    refine not_written_of_long hitems ?_ hwritten
    rw [List.length_map]
    exact Nat.not_le.mp hlong

end GzipStage.Json
