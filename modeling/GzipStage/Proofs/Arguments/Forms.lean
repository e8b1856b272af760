import GzipStage.Proofs.Arguments.Parts

/-! Records by name and by position. -/
namespace GzipStage.Arguments

open Json

variable {a : Arguments} {p q : Part} {name : String} {document s s' : Bytes}
  {items : List Bytes}

theorem Part.nodup_names (p : Part) : p.names.Nodup := by cases p <;> decide

theorem eq_slot {slot : Slot} (hslot : slot ∈ p.slots a) (hfield : (name, q) ∈ p.fields)
    (hname : slot.name = name) : slot = ⟨name, q.IsDefault a, q.Says a⟩ := by
  obtain ⟨f, hf, rfl⟩ := List.mem_map.mp hslot
  rw [List.inj_on_of_nodup_map p.nodup_names hf hfield hname]

/-- A record with one member written in another way says the same if that member does. -/
theorem says_member {front back : List (String × Bytes)} {text text' : Bytes}
    (hfield : (name, q) ∈ p.fields) (hs : RecordForm p.names (front ++ (name, text) :: back) s)
    (hs' : RecordForm p.names (front ++ (name, text') :: back) s')
    (hmember : q.Says a text → q.Says a text') (hsaid : p.Says a s) : p.Says a s' := by
  have hp := fields_ne_nil hfield
  refine (Part.says_iff hp hs').mpr (((Part.says_iff hp hs).mp hsaid).replace ?_)
  intro slot hslot hname htext
  rw [eq_slot hslot hfield hname] at htext ⊢
  exact hmember htext

/-- The one text is the other with some records in it written in the other form, or with their
members in another order: the outermost record, or one that is a member of it, and so on. -/
inductive Recast : Part → Bytes → Bytes → Prop
  | refl (p : Part) {s : Bytes} (hs : Text s) : Recast p s s
  | trans {p : Part} {s s₁ s₂ : Bytes} (h₁ : Recast p s s₁) (h₂ : Recast p s₁ s₂) : Recast p s s₂
  | form {p : Part} {entries entries' : List (String × Bytes)} {s s' : Bytes} (hp : p.fields ≠ [])
      (hs : RecordForm p.names entries s) (hs' : RecordForm p.names entries' s')
      (hperm : entries.Perm entries') : Recast p s s'
  | member {p q : Part} {name : String} {front back : List (String × Bytes)}
      {s s' text text' : Bytes} (hfield : (name, q) ∈ p.fields)
      (hs : RecordForm p.names (front ++ (name, text) :: back) s)
      (hs' : RecordForm p.names (front ++ (name, text') :: back) s')
      (hmember : Recast q text text') : Recast p s s'

theorem Recast.symm (h : Recast p s s') : Recast p s' s := by
  induction h with
  | refl p hs => exact .refl p hs
  | trans _ _ ih₁ ih₂ => exact .trans ih₂ ih₁
  | form hp hs hs' hperm => exact .form hp hs' hs hperm.symm
  | member hfield hs hs' _ ih => exact .member hfield hs' hs ih

theorem Recast.isText (h : Recast p s s') : Text s ∧ Text s' := by
  induction h with
  | refl p hs => exact ⟨hs, hs⟩
  | trans _ _ ih₁ ih₂ => exact ⟨ih₁.1, ih₂.2⟩
  | form _ hs hs' _ => exact ⟨hs.isText, hs'.isText⟩
  | member _ hs hs' _ _ => exact ⟨hs.isText, hs'.isText⟩

theorem Recast.holds (h : Recast p s s') : p.Says a s → p.Says a s' := by
  induction h with
  | refl => exact id
  | trans _ _ ih₁ ih₂ => exact ih₂ ∘ ih₁
  | form hp hs hs' hperm =>
    intro hsays
    exact (Part.says_iff hp hs').mpr (((Part.says_iff hp hs).mp hsays).perm hperm)
  | member hfield hs hs' _ ih => exact says_member hfield hs hs' ih

theorem At.decode_ok_iff (hat : At document .document s) :
    decode document = .ok a ↔ Part.document.Says a s := by
  generalize hp : Part.document = p at hat
  cases hat with
  | whole hbefore hafter htext hdocument =>
    rw [hdocument]
    exact Arguments.decode_ok_iff hbefore hafter htext
  | @field p q name _ _ _ _ _ hfield _ =>
    rw [← hp] at hfield
    cases p <;> simp [Part.fields] at hfield

/-- A list holds the values of the first fields, and the other fields hold their defaults. -/
theorem At.list (hat : At document p s) (h : decode document = .ok a) (hs : ListText items s)
    {i : Nat} (hi : p.fields[i]? = some (name, q)) :
    (∀ text, items[i]? = some text → q.Says a text) ∧ (items[i]? = none → q.IsDefault a) := by
  have hfield : (name, q) ∈ p.fields := List.mem_of_getElem? hi
  have hlength := (hat.form h (fields_ne_nil hfield)).2 items hs
  have hform : RecordForm p.names (p.names.zip items) s :=
    .list (by rwa [Part.names, List.length_map]) hs
  have hname : p.names[i]? = some name := by rw [Part.names, List.getElem?_map, hi, Option.map_some]
  constructor
  · intro text htext
    have hentry : (name, text) ∈ p.names.zip items :=
      List.mem_of_getElem? (List.getElem?_zip_eq_some.mpr ⟨hname, htext⟩)
    exact At.holds (hat.field hform hfield hentry) h
  · intro hnone
    refine hat.isDefault h hform hfield fun hmem => ?_
    obtain ⟨⟨name', text⟩, hentry, rfl⟩ := List.mem_map.mp hmem
    obtain ⟨j, hj⟩ := List.mem_iff_getElem?.mp hentry
    obtain ⟨hname', htext⟩ := List.getElem?_zip_eq_some.mp hj
    -- No two fields have one name, so the value found would be the one that is missing.
    obtain ⟨hlt, _⟩ := List.getElem?_eq_some_iff.mp hname
    obtain rfl : i = j := (List.getElem?_inj hlt p.nodup_names).mp (hname.trans hname'.symm)
    rw [hnone] at htext
    cases htext

/-- Documents that are recast of each other are decoded to the same.  A list holds the values of
the first fields of its record and leaves the others at their defaults, and one that is longer than
its record is rejected. -/
theorem decode_forms :
    (∀ document document' text text', At document .document text → At document' .document text' →
        Recast .document text text' → ∀ a, decode document = .ok a ↔ decode document' = .ok a) ∧
      ∀ document p s items, At document p s → ListText items s → p.fields ≠ [] →
        (p.fields.length < items.length → ∃ e, decode document = .error e) ∧
        ∀ a, decode document = .ok a → ∀ (i : Nat) (name : String) (q : Part),
          p.fields[i]? = some (name, q) →
            (∀ text, items[i]? = some text → q.Says a text) ∧
            (items[i]? = none → q.IsDefault a) := by
  refine ⟨?_, fun document p s items hat hs hp => ⟨?_, ?_⟩⟩
  · intro document document' text text' hat hat' hrecast a
    rw [hat.decode_ok_iff, hat'.decode_ok_iff]
    exact ⟨hrecast.holds, hrecast.symm.holds⟩
  · intro hlong
    cases h : decode document with
    | error e => exact ⟨e, rfl⟩
    | ok a => exact absurd ((hat.form h hp).2 items hs) (Nat.not_le.mpr hlong)
  · intro a h i name q hi
    exact hat.list h hs hi

def pathInput : String := "[\"p\"]"

def positionalInputs : String := "[" ++ pathInput ++ "]"

def namedInputs : String := "\x7b\"file\":" ++ pathInput ++ "\x7d"

def positionalDocument : Bytes := Utf8.encode ("[\"t\"," ++ positionalInputs ++ "]")

def namedDocument : Bytes :=
  Utf8.encode ("\x7b\"inputs\":" ++ namedInputs ++ ",\"tree\":\"t\"\x7d")

theorem recast_positionalDocument : Recast .document positionalDocument namedDocument := by
  have hinputs : ListText [Utf8.encode pathInput] (Utf8.encode positionalInputs) := by
    decide +kernel
  have hinputs' : ObjectText [("file", Utf8.encode pathInput)] (Utf8.encode namedInputs) := by
    decide +kernel
  have hdocument : ListText [Utf8.encode "\"t\"", Utf8.encode positionalInputs]
      positionalDocument := by decide +kernel
  have hmixed : ListText [Utf8.encode "\"t\"", Utf8.encode namedInputs]
      (Utf8.encode ("[\"t\"," ++ namedInputs ++ "]")) := by decide +kernel
  have hdocument' : ObjectText
      [("inputs", Utf8.encode namedInputs), ("tree", Utf8.encode "\"t\"")] namedDocument := by
    decide +kernel
  have hmember : Recast .inputs (Utf8.encode positionalInputs) (Utf8.encode namedInputs) :=
    .form (by decide) (.list (by decide) hinputs) (.object hinputs') (.refl _)
  have hform : RecordForm Part.document.names
      ([("tree", Utf8.encode "\"t\"")] ++ [("inputs", Utf8.encode positionalInputs)])
      positionalDocument := .list (by decide) hdocument
  have hform' : RecordForm Part.document.names
      ([("tree", Utf8.encode "\"t\"")] ++ [("inputs", Utf8.encode namedInputs)])
      (Utf8.encode ("[\"t\"," ++ namedInputs ++ "]")) := .list (by decide) hmixed
  have hfirst := Recast.member (show ("inputs", Part.inputs) ∈ _ by decide) hform hform' hmember
  exact .trans hfirst (.form (by decide) hform' (.object hdocument') (.swap _ _ _))

def overlongOptions : String := "[\"n\",0]"

def overlongDocument : Bytes := Utf8.encode ("\x7b\"options\":" ++ overlongOptions ++ "\x7d")

theorem decode_forms_positional :
    (∃ a, decode positionalDocument = .ok a ∧ decode namedDocument = .ok a ∧ a.filename = "") ∧
      ∃ e, decode overlongDocument = .error e := by
  obtain ⟨hrecast, hlists⟩ := decode_forms
  constructor
  · have hlist : ListText [Utf8.encode "\"t\"", Utf8.encode positionalInputs]
        positionalDocument := by decide +kernel
    have hat := at_self hlist.isText
    have hat' := at_self recast_positionalDocument.isText.2
    have hsome : (decode positionalDocument).toOption.isSome := by decide +kernel
    obtain ⟨a, ha⟩ := Option.isSome_iff_exists.mp hsome
    have h := eq_ok_of_toOption ha
    have hmissing := ((hlists _ _ _ _ hat hlist (by decide)).2 a h 2 "options" .options rfl).2
    exact ⟨a, h, (hrecast _ _ _ _ hat hat' recast_positionalDocument a).mp h, hmissing rfl⟩
  · have hdocument : ObjectText [("options", Utf8.encode overlongOptions)] overlongDocument := by
      decide +kernel
    have hoptions : ListText [Utf8.encode "\"n\"", Utf8.encode "0"]
        (Utf8.encode overlongOptions) := by decide +kernel
    have hat : At overlongDocument .options (Utf8.encode overlongOptions) :=
      (at_self hdocument.isText).field (.object hdocument) (by decide) List.mem_cons_self
    exact (hlists _ _ _ _ hat hoptions (by decide)).1 (by decide)

end GzipStage.Arguments
