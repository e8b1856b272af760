import GzipStage.Proofs.Arguments.Decode
import GzipStage.Proofs.Arguments.Forms
import GzipStage.Proofs.Json.Nesting

/-! How deep a document may nest. -/
namespace GzipStage.Arguments

open Json

variable {a : Arguments} {p q : Part} {name : String} {entries : List (String × Bytes)}
  {written : List Slot} {slot : Slot} {s s' text document document' : Bytes} {v : Value}

/-! ### Documents with one staged file -/

/-- What a document with one staged file holds besides what is said about the file. -/
structure Staging where
  tree : String
  path : String
  content : String
  filename : String

namespace Staging

variable {g : Staging}

def arguments (g : Staging) (v : Value) : Arguments :=
  ⟨g.tree, ⟨g.path, [(g.content, v)]⟩, g.filename⟩

/-- `data`: the one staged file, with the text of what is said about it. -/
def dataSlots (g : Staging) (text : Bytes) : List Slot :=
  [⟨"files", False, ObjectText [(g.content, text)]⟩]

def fileSlots (g : Staging) (text : Bytes) : List Slot :=
  [⟨"path", g.path = "", StringText g.path⟩, ⟨"data", False, RecordText (g.dataSlots text)⟩]

def inputsSlots (g : Staging) (text : Bytes) : List Slot :=
  [⟨"file", False, RecordText (g.fileSlots text)⟩]

def slots (g : Staging) (text : Bytes) : List Slot :=
  [⟨"tree", g.tree = "", StringText g.tree⟩,
    ⟨"inputs", False, RecordText (g.inputsSlots text)⟩,
    ⟨"options", g.filename = "", RecordText (optionsSlots g.filename)⟩]

/-- The ways to write a document whose records are objects, when a text is given for what is said
about the file. -/
def Spelled (g : Staging) (text document : Bytes) : Prop :=
  ∃ before s after, Blank before ∧ Blank after ∧ RecordText (g.slots text) s ∧
    document = before ++ (s ++ after)

theorem textual_data (g : Staging) (text : Bytes) : Textual (g.dataSlots text) :=
  List.forall_mem_singleton.mpr fun _ h => h.isText

theorem textual_file (g : Staging) (text : Bytes) : Textual (g.fileSlots text) :=
  List.forall_mem_cons.mpr ⟨fun _ h => .string h.literal,
    List.forall_mem_singleton.mpr fun _ h => RecordText.isText h (g.textual_data text)⟩

theorem textual_inputs (g : Staging) (text : Bytes) : Textual (g.inputsSlots text) :=
  List.forall_mem_singleton.mpr fun _ h => RecordText.isText h (g.textual_file text)

theorem textual_options (filename : String) : Textual (optionsSlots filename) :=
  List.forall_mem_singleton.mpr fun _ h => .string h.literal

theorem textual (g : Staging) (text : Bytes) : Textual (g.slots text) :=
  List.forall_mem_cons.mpr ⟨fun _ h => .string h.literal,
    List.forall_mem_cons.mpr ⟨fun _ h => RecordText.isText h (g.textual_inputs text),
      List.forall_mem_singleton.mpr fun _ h => RecordText.isText h (textual_options g.filename)⟩⟩

/-! ### What such a document says -/

theorem says_record (hp : p.fields ≠ []) (h : RecordText written s) (htextual : Textual written)
    (hslots : List.Forall₂ Slot.Serves written (p.slots a)) : p.Says a s := by
  obtain ⟨entries, hs, hfilled⟩ := h.filled htextual
  exact (Part.says_iff hp (.object hs)).mpr (hfilled.serves hslots)

section Says

variable (hv : v.SpelledOut text) (hdepth : v.depth ≤ 122)

include hv hdepth

theorem says_files (h : ObjectText [(g.content, text)] s) :
    Part.files.Says (g.arguments v.kept) s := by
  have hread : Reads (map (122 + 1)) s [(g.content, v.kept)] :=
    (reads_map_iff h).mpr (.cons ((hv.reads hdepth).member fun v => Members.insert g.content v [])
      (.nil _))
  exact hread

theorem says_data (h : RecordText (g.dataSlots text) s) :
    Part.data.Says (g.arguments v.kept) s :=
  says_record (by decide) h (g.textual_data text)
    (.cons ⟨rfl, False.elim, fun _ => says_files hv hdepth⟩ .nil)

theorem says_file (h : RecordText (g.fileSlots text) s) :
    Part.file.Says (g.arguments v.kept) s :=
  says_record (by decide) h (g.textual_file text)
    (.cons ⟨rfl, id, fun _ h => h.reads⟩
      (.cons ⟨rfl, False.elim, fun _ => says_data hv hdepth⟩ .nil))

theorem says_inputs (h : RecordText (g.inputsSlots text) s) :
    Part.inputs.Says (g.arguments v.kept) s :=
  says_record (by decide) h (g.textual_inputs text)
    (.cons ⟨rfl, False.elim, fun _ => says_file hv hdepth⟩ .nil)

theorem says_document (h : RecordText (g.slots text) s) :
    Part.document.Says (g.arguments v.kept) s :=
  says_record (by decide) h (g.textual text)
    (.cons ⟨rfl, id, fun _ h => h.reads⟩
      (.cons ⟨rfl, False.elim, fun _ => says_inputs hv hdepth⟩
        (.cons ⟨rfl, id, fun _ h => reads_options h⟩ .nil)))

end Says

/-! ### Where the text stands -/

theorem at_field (hat : At document p s) (h : RecordText written s) (htextual : Textual written)
    (hslot : slot ∈ written) (hrequired : ¬ slot.optional) (hfield : (slot.name, q) ∈ p.fields) :
    ∃ text, At document q text ∧ slot.spelled text := by
  obtain ⟨entries, hs, hfilled⟩ := h.filled htextual
  obtain ⟨text, hentry, htext⟩ := hfilled.exists_written hslot hrequired
  exact ⟨text, hat.field (.object hs) hfield hentry, htext⟩

theorem at_files (h : g.Spelled text document) :
    ∃ s, At document .files s ∧ ObjectText [(g.content, text)] s := by
  obtain ⟨before, s, after, hbefore, hafter, hs, rfl⟩ := h
  have hat : At (before ++ (s ++ after)) .document s :=
    .whole hbefore hafter (RecordText.isText hs (g.textual text)) rfl
  obtain ⟨inputs, hat, hinputs⟩ := at_field hat hs (g.textual text)
    (List.mem_cons_of_mem _ List.mem_cons_self) not_false
    (show ("inputs", Part.inputs) ∈ _ by decide)
  obtain ⟨file, hat, hfile⟩ := at_field hat hinputs (g.textual_inputs text)
    List.mem_cons_self not_false (show ("file", Part.file) ∈ _ by decide)
  obtain ⟨data, hat, hdata⟩ := at_field hat hfile (g.textual_file text)
    (List.mem_cons_of_mem _ List.mem_cons_self) not_false
    (show ("data", Part.data) ∈ _ by decide)
  exact at_field hat hdata (g.textual_data text)
    List.mem_cons_self not_false (show ("files", Part.files) ∈ _ by decide)

/-- In a document that is accepted, no more is open than the levels below the five records. -/
theorem depth_le (hv : v.SpelledOut text) (h : g.Spelled text document)
    (hdecode : decode document = .ok a) : v.depth ≤ 122 := by
  obtain ⟨s, hat, hs⟩ := at_files h
  have hreads : Reads (map (122 + 1)) s a.input.files := hat.holds hdecode
  have hmember := reads_of_folds (value_sound 122) (List.forall_mem_singleton.mpr hv.isText)
    ((reads_map_iff hs).mp hreads)
  obtain ⟨w, hw⟩ := hmember _ (List.mem_singleton_self _)
  exact hv.depth_le hw

theorem decode_iff (hv : v.SpelledOut text) (h : g.Spelled text document) :
    decode document = .ok a ↔ v.depth ≤ 122 ∧ a = g.arguments v.kept := by
  have haccepted (hdepth : v.depth ≤ 122) : decode document = .ok (g.arguments v.kept) := by
    obtain ⟨before, s, after, hbefore, hafter, hs, rfl⟩ := h
    exact (decode_ok_iff hbefore hafter (RecordText.isText hs (g.textual text))).mpr
      (says_document hv hdepth hs)
  constructor
  · intro hdecode
    have hdepth := depth_le hv h hdecode
    exact ⟨hdepth, Except.ok.inj (hdecode.symm.trans (haccepted hdepth))⟩
  · rintro ⟨hdepth, rfl⟩
    exact haccepted hdepth

end Staging

/-! ### Members of no field -/

/-- The one text is the other with a member that is of no field, and whose value is `value`: in the
outermost record, or in one that is a member of it, and so on. -/
inductive Adds (value : Bytes) : Part → Bytes → Bytes → Prop
  | here {p : Part} {name : String} {front back : List (String × Bytes)} {s s' : Bytes}
      (hp : p.fields ≠ []) (hname : name ∉ p.names) (hs : ObjectText (front ++ back) s)
      (hs' : ObjectText (front ++ (name, value) :: back) s') : Adds value p s s'
  | member {p q : Part} {name : String} {front back : List (String × Bytes)}
      {s s' text text' : Bytes} (hfield : (name, q) ∈ p.fields)
      (hs : RecordForm p.names (front ++ (name, text) :: back) s)
      (hs' : RecordForm p.names (front ++ (name, text') :: back) s')
      (hmember : Adds value q text text') : Adds value p s s'

theorem name_ne_of_slot (hname : name ∉ p.names) : ∀ slot ∈ p.slots a, slot.name ≠ name := by
  intro slot hslot hsame
  obtain ⟨f, hf, rfl⟩ := List.mem_map.mp hslot
  exact hname (hsame ▸ List.mem_map_of_mem hf)

theorem Adds.says_iff {value : Bytes} (h : Adds value p s s') : p.Says a s ↔ p.Says a s' := by
  induction h with
  | here hp hname hs hs' =>
    rw [Part.says_iff hp (.object hs), Part.says_iff hp (.object hs'),
      ← Filled.cons_iff (name_ne_of_slot hname)]
    exact ⟨fun hfilled => hfilled.perm List.perm_middle.symm,
      fun hfilled => hfilled.perm List.perm_middle⟩
  | member hfield hs hs' _ ih =>
    exact ⟨says_member hfield hs hs' ih.mp, says_member hfield hs' hs ih.mpr⟩

/-- What is said about the one staged file of a document is kept if no more than 122 of its lists
and objects are open at once, and the document is rejected otherwise.  The same text under a name of
no field changes nothing, in any record and however deep it nests. -/
theorem decode_nesting (hv : v.SpelledOut text) :
    (∀ (g : Staging) (document : Bytes), g.Spelled text document →
      (∀ a, decode document = .ok a ↔ v.depth ≤ 122 ∧ a = g.arguments v.kept) ∧
        (122 < v.depth → ∃ e, decode document = .error e)) ∧
      (∀ levels, v.Fits levels → v.kept = v) ∧
      ∀ document document' s s', At document .document s → At document' .document s' →
        Adds text .document s s' → ∀ a, decode document = .ok a ↔ decode document' = .ok a := by
  refine ⟨fun g document h => ⟨fun a => g.decode_iff hv h, fun hdeep => ?_⟩,
    fun _ => Value.Fits.kept, fun document document' s s' hat hat' hadds a => ?_⟩
  · cases hdecode : decode document with
    | error e => exact ⟨e, rfl⟩
    | ok a => exact absurd (Staging.depth_le hv h hdecode) (Nat.not_le.mpr hdeep)
  · rw [hat.decode_ok_iff, hat'.decode_ok_iff]
    exact hadds.says_iff

/-- Lists inside one another, the innermost around `null`. -/
def nested : Nat → Value
  | 0 => .null
  | n + 1 => .array [nested n]

def nestedText : Nat → Bytes
  | 0 => Utf8.encode "null"
  | n + 1 => inBrackets (nestedText n)

theorem nested_spelledOut (n : Nat) : (nested n).SpelledOut (nestedText n) := by
  induction n with
  | zero => exact .null
  | succ n ih =>
    have hrow : Row (fun (e : Value × Bytes) text => e.2 = text) [(nested n, nestedText n)]
        ([] ++ (nestedText n ++ [])) := .first blank_nil rfl (.done blank_nil)
    rw [List.nil_append, List.append_nil] at hrow
    exact .list hrow (List.forall_mem_singleton.mpr ih)

theorem nested_fits (n : Nat) : (nested n).Fits n := by
  induction n with
  | zero => exact .null
  | succ n ih => exact .list (List.forall_mem_singleton.mpr ih)

theorem nested_depth (n : Nat) : (nested n).depth = n := by
  induction n with
  | zero => rfl
  | succ n ih => rw [nested, Value.depth, itemsDepth, itemsDepth, ih, Nat.max_zero]

def braced (name : String) (value : Bytes) : Bytes :=
  inBraces (quoted name ++ Octet.colon :: value)

theorem objectText_braced (hname : name.toList.all isPlain = true) (htext : Text text) :
    ObjectText [(name, text)] (braced name text) := by
  have hrow : Row (fun (e : String × Bytes) => NamedMember e.1 e.2) [(name, text)]
      ([] ++ (quoted name ++ Octet.colon :: text ++ [])) :=
    .first blank_nil (namedMember_quoted name text hname) (.done blank_nil)
  rw [List.nil_append, List.append_nil] at hrow
  exact ⟨_, hrow, List.forall_mem_singleton.mpr htext, rfl⟩

/-- A document that says nothing but what is said about a staged file `a`. -/
def stagedDocument (text : Bytes) : Bytes :=
  braced "inputs" (braced "file" (braced "data" (braced "files" (braced "a" text))))

def bare : Staging := ⟨"", "", "a", ""⟩

theorem stagedDocument_spelled (htext : Text text) : bare.Spelled text (stagedDocument text) := by
  have hplain : ∀ name ∈ ["inputs", "file", "data", "files"], name.toList.all isPlain = true := by
    decide
  have hfiles : ObjectText [(bare.content, text)] (braced "a" text) :=
    objectText_braced (by decide) htext
  have hdata := @recordText_quoted (bare.dataSlots text) _ _ (List.mem_singleton_self _)
    (hplain "files" (by decide)) (by simpa [Staging.dataSlots] using hfiles)
    (by simp [Staging.dataSlots])
  have hfile := @recordText_quoted (bare.fileSlots text) _ _
    (List.mem_cons_of_mem _ (List.mem_singleton_self _)) (hplain "data" (by decide))
    (by simpa [Staging.fileSlots] using hdata) (by simp [Staging.fileSlots, bare])
  have hinputs := @recordText_quoted (bare.inputsSlots text) _ _ (List.mem_singleton_self _)
    (hplain "file" (by decide)) (by simpa [Staging.inputsSlots] using hfile)
    (by simp [Staging.inputsSlots])
  have hdocument := @recordText_quoted (bare.slots text) _ _
    (List.mem_cons_of_mem _ List.mem_cons_self) (hplain "inputs" (by decide))
    (by simpa [Staging.slots] using hinputs) (by simp [Staging.slots, bare])
  exact ⟨[], _, [], blank_nil, blank_nil, hdocument, (List.append_nil _).symm⟩

/-- The last level that is left, one more, and many under another name. -/
theorem decode_nesting_nested :
    (∃ a, decode (stagedDocument (nestedText 122)) = .ok a ∧
        a.input.files = [("a", nested 122)]) ∧
      (∃ e, decode (stagedDocument (nestedText 123)) = .error e) ∧
      ∃ a, decode (inBraces []) = .ok a ∧ decode (braced "x" (nestedText 1000)) = .ok a := by
  have hspelled (n : Nat) := stagedDocument_spelled (nested_spelledOut n).isText
  refine ⟨?_, ?_, ?_⟩
  · obtain ⟨hstaged, hkept, -⟩ := decode_nesting (nested_spelledOut 122)
    have hdecode := ((hstaged _ _ (hspelled 122)).1 _).mpr ⟨(nested_depth 122).le, rfl⟩
    refine ⟨_, hdecode, ?_⟩
    rw [hkept 122 (nested_fits 122)]
    rfl
  · exact ((decode_nesting (nested_spelledOut 123)).1 _ _ (hspelled 123)).2
      ((nested_depth 123).symm ▸ by decide)
  · have hempty : ObjectText [] (inBraces []) :=
      ⟨[], .none blank_nil, List.forall_mem_nil _, rfl⟩
    have hmember := objectText_braced (show "x".toList.all isPlain = true by decide)
      (nested_spelledOut 1000).isText
    have hadds : Adds (nestedText 1000) .document (inBraces []) (braced "x" (nestedText 1000)) :=
      .here (by decide) (show "x" ∉ Part.document.names by decide)
        (show ObjectText ([] ++ []) _ from hempty) hmember
    have hsome : (decode (inBraces [])).toOption.isSome := by decide +kernel
    obtain ⟨a, ha⟩ := Option.isSome_iff_exists.mp hsome
    have h := eq_ok_of_toOption ha
    exact ⟨a, h, ((decode_nesting (nested_spelledOut 1000)).2.2 _ _ _ _ (at_self hempty.isText)
      (at_self hmember.isText) hadds a).mp h⟩

end GzipStage.Arguments
