import GzipStage.Json.Record
import GzipStage.Proofs.Json.Read

/-! Records are read back from every way to write them. -/
namespace GzipStage.Json

variable {σ α : Type} {mix : List String → σ} {levels : Nat} {fields : List (Field σ)}
  {slots : List Slot} {text : Bytes} {x : σ}

/-- A field reads the texts of a slot and completes the record by them. -/
structure Fills (mix : List String → σ) (levels : Nat) (field : Field σ) (slot : Slot) : Prop where
  name : field.name = slot.name
  reads : ∀ seen text, slot.spelled text →
    Reads (field.read levels (mix seen)) text (mix (slot.name :: seen))

theorem Fills.of {name : String} {optional : Prop} {spelled : Bytes → Prop} {reader : Reader α}
    {set : σ → α → σ} {a : α} (hread : ∀ text, spelled text → Reads (reader levels) text a)
    (hset : ∀ seen, set (mix seen) a = mix (name :: seen)) :
    Fills mix levels (Field.of name reader set) ⟨name, optional, spelled⟩ := by
  refine ⟨rfl, fun seen text htext before rest hbefore hrest => ?_⟩
  simp only [Field.of, hread text htext before rest hbefore hrest, ok_bind, hset]

namespace Record

/-- Either no field has a name, or the field of that name fills a slot. -/
theorem find?_fills (h : List.Forall₂ (Fills mix levels) fields slots) (name : String) :
    (fields.find? (·.name = name) = none ∧ ∀ slot ∈ slots, slot.name ≠ name) ∨
      ∃ field slot, fields.find? (·.name = name) = some field ∧ slot ∈ slots ∧
        slot.name = name ∧ Fills mix levels field slot := by
  induction h with
  | nil => exact .inl ⟨rfl, List.forall_mem_nil _⟩
  | @cons field slot fields slots hfills _ ih =>
    by_cases hname : field.name = name
    · refine .inr ⟨field, slot, ?_, List.mem_cons_self, hfills.name ▸ hname, hfills⟩
      exact List.find?_cons_of_pos (decide_eq_true hname)
    · have hfind : (field :: fields).find? (·.name = name) = fields.find? (·.name = name) :=
        List.find?_cons_of_neg (by simpa using hname)
      rw [hfind]
      rcases ih with ⟨hnone, hslots⟩ | ⟨field', slot', hsome, hmem, hslot, hfills'⟩
      · refine .inl ⟨hnone, ?_⟩
        intro slot' hslot'
        rcases List.mem_cons.mp hslot' with rfl | hslot'
        · exact hfills.name ▸ hname
        · exact hslots slot' hslot'
      · exact .inr ⟨field', slot', hsome, List.mem_cons_of_mem _ hmem, hslot, hfills'⟩

theorem member_other {name : String} {state : σ × List String}
    (h : fields.find? (·.name = name) = none) (htext : Text text) :
    ReadsMember (member fields levels name state) text state := by
  intro before after rest hbefore hafter hrest
  obtain ⟨x, seen⟩ := state
  rw [member]
  simp only [h, readColon_next hbefore, htext.skip hafter hrest, ok_bind]

theorem member_field {name : String} {field : Field σ} {seen : List String} {y : σ}
    (h : fields.find? (·.name = name) = some field) (hseen : name ∉ seen)
    (hread : Reads (field.read levels x) text y) :
    ReadsMember (member fields levels name (x, seen)) text (y, name :: seen) := by
  intro before after rest hbefore hafter hrest
  rw [member]
  simp only [h, if_neg hseen]
  exact hread.member (fun x => (x, name :: seen)) before after rest hbefore hafter hrest

/-- The members of a record are read one after another, and every field among them is met. -/
theorem folds_member (hfields : List.Forall₂ (Fills mix levels) fields slots)
    {entries : List (String × Bytes)} (seen : List String)
    (honce : ∀ slot ∈ slots, (seen ++ entries.map Prod.fst).count slot.name ≤ 1)
    (hentries : ∀ e ∈ entries, (∀ slot ∈ slots, slot.name = e.1 → slot.spelled e.2) ∧
      ((∀ slot ∈ slots, slot.name ≠ e.1) → Text e.2)) :
    ∃ seen', Folds (member fields levels) Prod.fst Prod.snd (mix seen, seen) entries
        (mix seen', seen') ∧
      ∀ slot ∈ slots, slot.name ∈ seen ++ entries.map Prod.fst → slot.name ∈ seen' := by
  induction entries generalizing seen with
  | nil => exact ⟨seen, .nil _, fun slot _ hslot => by simpa using hslot⟩
  | cons e entries ih =>
    obtain ⟨name, text⟩ := e
    obtain ⟨hknown, hother⟩ := hentries (name, text) List.mem_cons_self
    have hmore := fun e he => hentries e (List.mem_cons_of_mem _ he)
    -- A name outside the slots leaves the state alone; one of a slot is new and joins `seen`.
    rcases find?_fills hfields name with ⟨hnone, hslots⟩ | ⟨field, slot, hsome, hslot, rfl, hfills⟩
    · have honce' : ∀ slot ∈ slots, (seen ++ entries.map Prod.fst).count slot.name ≤ 1 := by
        intro slot hslot
        refine Nat.le_trans (List.Sublist.count_le _ ?_) (honce slot hslot)
        exact (List.sublist_cons_self _ _).append_left seen
      obtain ⟨seen', hfolds, hmet⟩ := ih _ honce' hmore
      refine ⟨seen', .cons (member_other hnone (hother hslots)) hfolds, ?_⟩
      intro slot hslot hmem
      apply hmet slot hslot
      simpa [hslots slot hslot] using hmem
    · have hmiddle : (seen ++ slot.name :: entries.map Prod.fst).Perm
          (slot.name :: seen ++ entries.map Prod.fst) := List.perm_middle
      have honce' : ∀ slot' ∈ slots,
          (slot.name :: seen ++ entries.map Prod.fst).count slot'.name ≤ 1 :=
        fun slot' hslot' => hmiddle.count_eq slot'.name ▸ honce slot' hslot'
      have hseen : slot.name ∉ seen := by
        intro hmem
        have hone := honce' slot hslot
        rw [List.cons_append, List.count_cons_self, List.count_append] at hone
        have := List.count_pos_iff.mpr hmem
        omega
      obtain ⟨seen', hfolds, hmet⟩ := ih _ honce' hmore
      refine ⟨seen', .cons ?_ hfolds, fun slot hslot hmem => ?_⟩
      · exact member_field hsome hseen (hfills.reads seen text (hknown slot hslot rfl))
      · exact hmet slot hslot (hmiddle.mem_iff.mp hmem)

end Record

variable {name : String}

/-- A record is read from each way to write it, when the fields that are left out have the values
they start with. -/
theorem RecordText.reads (h : RecordText slots text) (mix : List String → σ)
    (hfields : List.Forall₂ (Fills mix levels) fields slots)
    (hx : ∀ seen, (∀ slot ∈ slots, slot.name ∉ seen → slot.optional) → mix seen = x) :
    Reads (record name fields (mix []) (levels + 1)) text x := by
  intro before rest hbefore _
  obtain ⟨entries, body, hbody, rfl, honce, hmissing, hentries⟩ := h
  obtain ⟨seen, hfolds, hmet⟩ := Record.folds_member hfields [] honce hentries
  obtain ⟨blank, hblank, hmembers⟩ :=
    members_row rest hbody hfolds (hbody.length_lt Octet.closeBrace rest)
  have hdone : mix seen = x := hx seen fun slot hslot hunseen =>
    hmissing slot hslot fun hmem => hunseen (hmet slot hslot hmem)
  have hne : Octet.openBrace ≠ Octet.openBracket := by decide
  rw [record, skipBlanks_inBraces hbefore]
  simp only [if_neg hne, if_true, deeper, hmembers, ok_bind, closeObject_end hblank, hdone]
  rfl

theorem RecordText.reads_single {field : String} {optional : Prop} {spelled : Bytes → Prop}
    {reader : Reader σ} {initial : σ} (h : RecordText [⟨field, optional, spelled⟩] text)
    (hread : ∀ text, spelled text → Reads (reader levels) text x) (hx : optional → x = initial) :
    Reads (record name [.of field reader fun _ x => x] initial (levels + 1)) text x := by
  have hfills : Fills (fun seen => if field ∈ seen then x else initial) levels
      (.of field reader fun _ x => x) ⟨field, optional, spelled⟩ :=
    .of hread fun seen => (if_pos List.mem_cons_self).symm
  have hstart : (if field ∈ ([] : List String) then x else initial) = initial :=
    if_neg List.not_mem_nil
  rw [← hstart]
  refine h.reads _ (.cons hfills .nil) fun seen hmissing => ?_
  split
  · rfl
  · next hunseen => exact (hx (hmissing _ List.mem_cons_self hunseen)).symm

end GzipStage.Json
