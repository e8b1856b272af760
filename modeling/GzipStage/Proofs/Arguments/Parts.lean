import GzipStage.Arguments.Basic
import GzipStage.Proofs.Json.Sound.Fields
import GzipStage.Proofs.Json.Sound.Map

/-! The parts of an arguments document. -/
namespace GzipStage.Arguments

open Json

/-! ### The fields of the records -/

def dataAccess : List (Access Members) := [⟨"files", map, fun _ files => files, id⟩]

def fileAccess : List (Access FileInput) :=
  [⟨"path", string, fun input path => { input with path }, FileInput.path⟩,
    ⟨"data", dataReader, fun input files => { input with files }, FileInput.files⟩]

def inputsAccess : List (Access FileInput) := [⟨"file", fileReader, fun _ input => input, id⟩]

def optionsAccess : List (Access String) := [⟨"filename", string, fun _ filename => filename, id⟩]

def access : List (Access Arguments) :=
  [⟨"tree", string, fun a tree => { a with tree }, Arguments.tree⟩,
    ⟨"inputs", inputsReader, fun a input => { a with input }, Arguments.input⟩,
    ⟨"options", optionsReader, fun a filename => { a with filename }, Arguments.filename⟩]

theorem separate_single {σ : Type} {name : String} {reader : Reader σ}
    (h : ∀ levels, Sound (reader levels)) :
    Separate [(⟨name, reader, fun _ x => x, id⟩ : Access σ)] where
  sound := List.forall_mem_singleton.mpr h
  names := List.nodup_singleton _
  own := by simp
  other := by simp
  ext x y hsame := hsame _ (List.mem_singleton_self _)

theorem data_separate : Separate dataAccess := separate_single map_sound

theorem data_sound (levels : Nat) : Sound (dataReader levels) :=
  record_sound data_separate.soundFields levels

theorem file_separate : Separate fileAccess where
  sound := by simp [fileAccess, string_sound, data_sound]
  names := by simp [fileAccess]
  own := by simp [fileAccess]
  other := by simp [fileAccess]
  ext x y hsame := by
    simp only [fileAccess, List.forall_mem_cons] at hsame
    obtain ⟨hpath, hfiles, _⟩ := hsame
    cases x
    cases y
    simp_all

theorem file_sound (levels : Nat) : Sound (fileReader levels) :=
  record_sound file_separate.soundFields levels

theorem inputs_separate : Separate inputsAccess := separate_single file_sound

theorem inputs_sound (levels : Nat) : Sound (inputsReader levels) :=
  record_sound inputs_separate.soundFields levels

theorem options_separate : Separate optionsAccess := separate_single string_sound

theorem options_sound (levels : Nat) : Sound (optionsReader levels) :=
  record_sound options_separate.soundFields levels

theorem separate : Separate access where
  sound := by simp [access, string_sound, inputs_sound, options_sound]
  names := by simp [access]
  own := by simp [access]
  other := by simp [access]
  ext x y hsame := by
    simp only [access, List.forall_mem_cons] at hsame
    obtain ⟨htree, hinput, hfilename, _⟩ := hsame
    cases x
    cases y
    simp_all

theorem reader_sound (levels : Nat) : Sound (reader levels) :=
  record_sound separate.soundFields levels

/-! ### Parts -/

/-- The whole document and what it holds. -/
inductive Part where
  | document | tree | inputs | file | path | data | files | options | filename
  deriving DecidableEq

namespace Part

/-- The names in a record with the parts that they name, in the order of declaration. -/
def fields : Part → List (String × Part)
  | .document => [("tree", .tree), ("inputs", .inputs), ("options", .options)]
  | .inputs => [("file", .file)]
  | .file => [("path", .path), ("data", .data)]
  | .data => [("files", .files)]
  | .options => [("filename", .filename)]
  | .tree | .path | .files | .filename => []

def names (p : Part) : List String := p.fields.map Prod.fst

/-- The text of a part says what the arguments hold. -/
def Says (a : Arguments) : Part → Bytes → Prop
  | .document, s => Reads (reader maxLevels) s a
  | .tree, s => Reads (string (maxLevels - 1)) s a.tree
  | .inputs, s => Reads (inputsReader (maxLevels - 1)) s a.input
  | .file, s => Reads (fileReader (maxLevels - 2)) s a.input
  | .path, s => Reads (string (maxLevels - 3)) s a.input.path
  | .data, s => Reads (dataReader (maxLevels - 3)) s a.input.files
  | .files, s => Reads (map (maxLevels - 4)) s a.input.files
  | .options, s => Reads (optionsReader (maxLevels - 1)) s a.filename
  | .filename, s => Reads (string (maxLevels - 2)) s a.filename

/-- A part holds what it does when it is left out. -/
def IsDefault (a : Arguments) : Part → Prop
  | .document => a = {}
  | .tree => a.tree = ""
  | .inputs | .file => a.input = {}
  | .path => a.input.path = ""
  | .data | .files => a.input.files = []
  | .options | .filename => a.filename = ""

/-- The fields of a record as they are written for some arguments. -/
def slots (a : Arguments) (p : Part) : List Slot :=
  p.fields.map fun f => ⟨f.1, f.2.IsDefault a, f.2.Says a⟩

variable {a : Arguments} {p q : Part} {name : String} {entries : List (String × Bytes)} {s : Bytes}

theorem says_iff (hp : p.fields ≠ []) (h : RecordForm p.names entries s) :
    p.Says a s ↔ Filled (p.slots a) entries := by
  cases p with
  | document => exact separate.reads_record_iff h
  | inputs => exact inputs_separate.reads_record_iff h
  | file => exact file_separate.reads_record_iff h
  | data => exact data_separate.reads_record_iff h
  | options => exact options_separate.reads_record_iff h
  | tree | path | files | filename => exact absurd rfl hp

/-- What is read as a record is written as one and no longer than the record. -/
theorem form_of_says (hp : p.fields ≠ []) (hs : Text s) (h : p.Says a s) :
    (∃ entries, RecordForm p.names entries s) ∧
      ∀ items, ListText items s → items.length ≤ p.fields.length := by
  cases p with
  | document => exact separate.form_of_reads hs h
  | inputs => exact inputs_separate.form_of_reads hs h
  | file => exact file_separate.form_of_reads hs h
  | data => exact data_separate.form_of_reads hs h
  | options => exact options_separate.form_of_reads hs h
  | tree | path | files | filename => exact absurd rfl hp

end Part

/-! ### Where parts stand -/

section Standing

variable {a : Arguments} {p q : Part} {name : String} {entries : List (String × Bytes)}
  {document before after s text : Bytes}

/-- A text stands in a document as a part. -/
inductive At (document : Bytes) : Part → Bytes → Prop
  | whole {before text after : Bytes} (hbefore : Blank before) (hafter : Blank after)
      (htext : Text text) (hdocument : document = before ++ (text ++ after)) :
      At document .document text
  | field {p q : Part} {name : String} {entries : List (String × Bytes)} {s text : Bytes}
      (hrecord : At document p s) (hform : RecordForm p.names entries s)
      (hfield : (name, q) ∈ p.fields) (hentry : (name, text) ∈ entries) : At document q text

theorem at_self (hs : Text s) : At s .document s :=
  .whole blank_nil blank_nil hs (List.append_nil s).symm

theorem At.isText (h : At document p s) : Text s := by
  cases h with
  | whole _ _ htext _ => exact htext
  | field _ hform _ hentry => exact hform.texts _ hentry

theorem decode_ok_iff (hbefore : Blank before) (hafter : Blank after) (htext : Text text) :
    decode (before ++ (text ++ after)) = .ok a ↔ Part.document.Says a text := by
  constructor
  · intro h
    obtain ⟨rest, hread, hrest⟩ := document_ok_iff.mp h
    obtain ⟨before', text', hbefore', htext', hsplit, hreads⟩ :=
      reader_sound maxLevels _ _ _ hread hrest.stops
    obtain ⟨rfl, _⟩ :=
      htext.unique htext' hbefore hbefore' hafter.stops hrest.stops hsplit
    exact hreads
  · intro h
    exact document_ok_iff.mpr ⟨after, h before after hbefore hafter.stops, hafter⟩

theorem exists_at_document (h : decode document = .ok a) : ∃ s, At document .document s := by
  obtain ⟨rest, hread, hrest⟩ := document_ok_iff.mp h
  obtain ⟨before, text, hbefore, htext, hsplit, _⟩ :=
    reader_sound maxLevels _ _ _ hread hrest.stops
  exact ⟨text, .whole hbefore hrest htext hsplit⟩

theorem fields_ne_nil (h : (name, q) ∈ p.fields) : p.fields ≠ [] := List.ne_nil_of_mem h

theorem slot_mem (h : (name, q) ∈ p.fields) :
    (⟨name, q.IsDefault a, q.Says a⟩ : Slot) ∈ p.slots a :=
  List.mem_map.mpr ⟨(name, q), h, rfl⟩

/-- Each part says what the arguments hold that the document is decoded to. -/
theorem At.holds (hat : At document p s) (h : decode document = .ok a) : p.Says a s := by
  induction hat with
  | whole hbefore hafter htext hdocument =>
    rw [hdocument] at h
    exact (decode_ok_iff hbefore hafter htext).mp h
  | field _ hform hfield hentry ih =>
    have hfilled := (Part.says_iff (fields_ne_nil hfield) hform).mp ih
    exact hfilled.written _ (slot_mem hfield) _ hentry

/-- A record that stands in a document that is accepted is one in form. -/
theorem At.form (hat : At document p s) (h : decode document = .ok a) (hp : p.fields ≠ []) :
    (∃ entries, RecordForm p.names entries s) ∧
      ∀ items, ListText items s → items.length ≤ p.fields.length :=
  Part.form_of_says hp hat.isText (hat.holds h)

theorem At.isDefault (hat : At document p s) (h : decode document = .ok a)
    (hform : RecordForm p.names entries s) (hfield : (name, q) ∈ p.fields)
    (hmissing : name ∉ entries.map Prod.fst) : q.IsDefault a := by
  have hfilled := (Part.says_iff (fields_ne_nil hfield) hform).mp (hat.holds h)
  exact hfilled.missing _ (slot_mem hfield) hmissing

theorem isDefault_field (hfield : (name, q) ∈ p.fields) (h : p.IsDefault a) : q.IsDefault a := by
  cases p with
  | document =>
    have h : a = {} := h
    simp only [Part.fields, List.mem_cons, Prod.mk.injEq, List.not_mem_nil, or_false] at hfield
    rcases hfield with ⟨rfl, rfl⟩ | ⟨rfl, rfl⟩ | ⟨rfl, rfl⟩
    · exact congrArg Arguments.tree h
    · exact congrArg Arguments.input h
    · exact congrArg Arguments.filename h
  | file =>
    have h : a.input = {} := h
    simp only [Part.fields, List.mem_cons, Prod.mk.injEq, List.not_mem_nil, or_false] at hfield
    rcases hfield with ⟨rfl, rfl⟩ | ⟨rfl, rfl⟩
    · exact congrArg FileInput.path h
    · exact congrArg FileInput.files h
  | inputs | data | options =>
    simp only [Part.fields, List.mem_singleton, Prod.mk.injEq] at hfield
    obtain ⟨rfl, rfl⟩ := hfield
    exact h
  | tree | path | files | filename => exact absurd hfield List.not_mem_nil

/-- A part stands somewhere or holds its default, if the record that it belongs to does. -/
theorem stands_field (h : decode document = .ok a) (hfield : (name, q) ∈ p.fields)
    (hp : (∃ s, At document p s) ∨ p.IsDefault a) :
    (∃ s, At document q s) ∨ q.IsDefault a := by
  rcases hp with ⟨s, hat⟩ | hdefault
  · obtain ⟨entries, hform⟩ := (hat.form h (fields_ne_nil hfield)).1
    by_cases hname : name ∈ entries.map Prod.fst
    · obtain ⟨⟨name, text⟩, hentry, rfl⟩ := List.mem_map.mp hname
      exact .inl ⟨text, .field hat hform hfield hentry⟩
    · exact .inr (hat.isDefault h hform hfield hname)
  · exact .inr (isDefault_field hfield hdefault)

theorem isDefault_of_not_at (h : decode document = .ok a) (hnot : ∀ s, ¬ At document p s) :
    p.IsDefault a := by
  have hdocument : (∃ s, At document .document s) ∨ Part.document.IsDefault a :=
    .inl (exists_at_document h)
  have hinputs := stands_field h (show ("inputs", Part.inputs) ∈ _ by simp [Part.fields]) hdocument
  have hfile := stands_field h (show ("file", Part.file) ∈ _ by simp [Part.fields]) hinputs
  have hdata := stands_field h (show ("data", Part.data) ∈ _ by simp [Part.fields]) hfile
  have hoptions :=
    stands_field h (show ("options", Part.options) ∈ _ by simp [Part.fields]) hdocument
  have hstands : (∃ s, At document p s) ∨ p.IsDefault a := by
    cases p with
    | document => exact hdocument
    | inputs => exact hinputs
    | file => exact hfile
    | data => exact hdata
    | options => exact hoptions
    | tree => exact stands_field h (show ("tree", Part.tree) ∈ _ by simp [Part.fields]) hdocument
    | path => exact stands_field h (show ("path", Part.path) ∈ _ by simp [Part.fields]) hfile
    | files => exact stands_field h (show ("files", Part.files) ∈ _ by simp [Part.fields]) hdata
    | filename =>
      exact stands_field h (show ("filename", Part.filename) ∈ _ by simp [Part.fields]) hoptions
  exact hstands.resolve_left fun ⟨s, hat⟩ => hnot s hat

end Standing

end GzipStage.Arguments
