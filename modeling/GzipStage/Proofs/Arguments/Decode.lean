import GzipStage.Arguments.Basic
import GzipStage.Proofs.Json.Record

/-! Arguments are decoded from every way to write them. -/
namespace GzipStage.Arguments

open Json

def dataSlots (files : Members) : List Slot :=
  [⟨"files", files = [], (Value.object files).Spelled⟩]

def fileSlots (input : FileInput) : List Slot :=
  [⟨"path", input.path = "", StringText input.path⟩,
    ⟨"data", input.files = [], RecordText (dataSlots input.files)⟩]

def inputsSlots (input : FileInput) : List Slot :=
  [⟨"file", input = {}, RecordText (fileSlots input)⟩]

def optionsSlots (filename : String) : List Slot :=
  [⟨"filename", filename = "", StringText filename⟩]

def slots (a : Arguments) : List Slot :=
  [⟨"tree", a.tree = "", StringText a.tree⟩,
    ⟨"inputs", a.input = {}, RecordText (inputsSlots a.input)⟩,
    ⟨"options", a.filename = "", RecordText (optionsSlots a.filename)⟩]

/-- The ways to write arguments as a document. -/
def Spelled (a : Arguments) (document : Bytes) : Prop :=
  ∃ before text after, Blank before ∧ Blank after ∧ RecordText a.slots text ∧
    document = before ++ (text ++ after)

def inputSeen (input : FileInput) (seen : List String) : FileInput where
  path := if "path" ∈ seen then input.path else ""
  files := if "data" ∈ seen then input.files else []

/-- The arguments once the fields `seen` have been read. -/
def argumentsSeen (a : Arguments) (seen : List String) : Arguments where
  tree := if "tree" ∈ seen then a.tree else ""
  input := if "inputs" ∈ seen then a.input else {}
  filename := if "options" ∈ seen then a.filename else ""

variable {levels : Nat} {text document : Bytes}

theorem inputSeen_eq {input : FileInput} {seen : List String}
    (h : ∀ slot ∈ fileSlots input, slot.name ∉ seen → slot.optional) :
    inputSeen input seen = input := by
  simp only [fileSlots, List.forall_mem_cons] at h
  obtain ⟨hpath, hdata, _⟩ := h
  have hpath : (if "path" ∈ seen then input.path else "") = input.path :=
    ite_eq_left_iff.mpr fun hunseen => (hpath hunseen).symm
  have hdata : (if "data" ∈ seen then input.files else []) = input.files :=
    ite_eq_left_iff.mpr fun hunseen => (hdata hunseen).symm
  rw [inputSeen, hpath, hdata]

theorem argumentsSeen_eq {a : Arguments} {seen : List String}
    (h : ∀ slot ∈ a.slots, slot.name ∉ seen → slot.optional) : argumentsSeen a seen = a := by
  simp only [slots, List.forall_mem_cons] at h
  obtain ⟨htree, hinputs, hoptions, _⟩ := h
  have htree : (if "tree" ∈ seen then a.tree else "") = a.tree :=
    ite_eq_left_iff.mpr fun hunseen => (htree hunseen).symm
  have hinputs : (if "inputs" ∈ seen then a.input else {}) = a.input :=
    ite_eq_left_iff.mpr fun hunseen => (hinputs hunseen).symm
  have hoptions : (if "options" ∈ seen then a.filename else "") = a.filename :=
    ite_eq_left_iff.mpr fun hunseen => (hoptions hunseen).symm
  rw [argumentsSeen, htree, hinputs, hoptions]

theorem reads_data {files : Members} (hfits : (Value.object files).Fits levels)
    (h : RecordText (dataSlots files) text) : Reads (dataReader (levels + 1)) text files :=
  h.reads_single (fun _ hfiles => reads_map hfiles hfits) id

theorem reads_file {input : FileInput} (hfits : (Value.object input.files).Fits levels)
    (h : RecordText (fileSlots input) text) : Reads (fileReader (levels + 2)) text input := by
  refine h.reads (inputSeen input) (.cons ?_ (.cons ?_ .nil)) fun _ => inputSeen_eq
  · exact .of (fun _ hpath => hpath.reads) fun seen => by simp [inputSeen]
  · exact .of (fun _ hdata => reads_data hfits hdata) fun seen => by simp [inputSeen]

theorem reads_inputs {input : FileInput} (hfits : (Value.object input.files).Fits levels)
    (h : RecordText (inputsSlots input) text) : Reads (inputsReader (levels + 3)) text input :=
  h.reads_single (fun _ hfile => reads_file hfits hfile) id

theorem reads_options {filename : String} (h : RecordText (optionsSlots filename) text) :
    Reads (optionsReader (levels + 1)) text filename :=
  h.reads_single (fun _ hfilename => hfilename.reads) id

theorem reads_arguments {a : Arguments} (hfits : (Value.object a.input.files).Fits levels)
    (h : RecordText a.slots text) : Reads (reader (levels + 4)) text a := by
  refine h.reads (argumentsSeen a) (.cons ?_ (.cons ?_ (.cons ?_ .nil))) fun _ => argumentsSeen_eq
  · exact .of (fun _ htree => htree.reads) fun seen => by simp [argumentsSeen]
  · exact .of (fun _ hinputs => reads_inputs hfits hinputs) fun seen => by simp [argumentsSeen]
  · exact .of (fun _ hoptions => reads_options hoptions) fun seen => by simp [argumentsSeen]

/-- Arguments come back from every document that spells them, provided the staged files nest no
deeper than the reader goes below the four records around them. -/
theorem decode_spelled {a : Arguments}
    (hfits : (Value.object a.input.files).Fits (maxLevels - 4)) (h : a.Spelled document) :
    decode document = .ok a := by
  obtain ⟨before, text, after, hbefore, hafter, htext, rfl⟩ := h
  have hstops : Stops after := List.append_nil after ▸ stops_of_blank hafter (by simp [Stops])
  have hread : reader maxLevels (before ++ (text ++ after)) = .ok (a, after) :=
    reads_arguments hfits htext before after hbefore hstops
  have hend : skipBlanks after = [] := List.append_nil after ▸ skipBlanks_append hafter
  simp only [decode, Json.document, hread, ok_bind, hend]
  rfl

/-- Arguments with two staged files, no directory and no name for the artifact. -/
def twoStaged : Arguments where
  tree := "😀"
  input := { files := [("a", .null), ("b", .number (.integer (-1)))] }

/-- The member `inputs` of a document: the files stand in descending order and the directory is left
out. -/
def twoStagedInputs : Bytes :=
  Utf8.encode "\x7b\"file\":\x7b\"data\":\x7b\"files\":\x7b\"b\":-1, \"a\":null\x7d\x7d\x7d\x7d"

def twoStagedTree : Bytes := Utf8.encode "\"\\uD83d\\ude00\""

/-- A document of these arguments, with a member `x` and an escape in a name. -/
def twoStagedDocument : Bytes :=
  Utf8.encode "\x7b\"x\":0,\"inputs\":" ++ twoStagedInputs ++
    Utf8.encode ",\"tr\\u0065e\" : " ++ twoStagedTree ++ Utf8.encode "\x7d\n"

theorem twoStaged_fits : (Value.object twoStaged.input.files).Fits (maxLevels - 4) := by
  refine .object ?_ ?_
  · simp only [twoStaged, Members.Ordered]
    decide
  · simp only [twoStaged, List.forall_mem_cons]
    exact ⟨.null, .integer (by decide) (by decide), List.forall_mem_nil _⟩

theorem twoStagedInputs_text : RecordText (inputsSlots twoStaged.input) twoStagedInputs := by
  have hfiles := @Value.Spelled.object
    [(("b", .number (.integer (-1))), decimal (-1)), (("a", .null), Utf8.encode "null")]
    twoStaged.input.files _ (List.Perm.swap _ _ _)
    (.first blank_nil (namedMember_quoted "b" _ rfl)
      (.item blank_nil blank_space (namedMember_quoted "a" _ rfl) (.done blank_nil)))
    (List.forall_mem_cons.mpr ⟨.integer _, List.forall_mem_singleton.mpr .null⟩)
  have hdata := @recordText_quoted (dataSlots twoStaged.input.files) _ _
    (List.mem_singleton_self _) rfl (by simpa [dataSlots] using hfiles) (by simp [dataSlots])
  have hfile := @recordText_quoted (fileSlots twoStaged.input) _ _
    (List.mem_cons_of_mem _ (List.mem_singleton_self _)) rfl (by simpa [fileSlots] using hdata)
    (by simp [fileSlots, twoStaged])
  exact @recordText_quoted (inputsSlots twoStaged.input) _ _
    (List.mem_singleton_self _) rfl (by simpa [inputsSlots] using hfile) (by simp [inputsSlots])

theorem twoStagedTree_text : StringText twoStaged.tree twoStagedTree := by
  have hhigh : HexUnit [0x44, 0x38, 0x33, 0x64] 0xd83d :=
    ⟨rfl, [0xd, 8, 3, 0xd], by simp only [List.forall₂_cons]; decide, rfl⟩
  have hlow : HexUnit [0x64, 0x65, 0x30, 0x30] 0xde00 :=
    ⟨rfl, [0xd, 0xe, 0, 0], by simp only [List.forall₂_cons]; decide, rfl⟩
  exact ⟨[_], .cons (.pair hhigh hlow (by decide) (by decide) rfl) .nil, rfl⟩

theorem twoStagedTree_member : NamedMember "tree" twoStagedTree
    (Utf8.encode "\"tr\\u0065e\" : " ++ twoStagedTree) := by
  have hunit : HexUnit [0x30, 0x30, 0x36, 0x35] 'e'.toNat :=
    ⟨rfl, [0, 0, 6, 5], by simp only [List.forall₂_cons]; decide, rfl⟩
  have hname : StringText "tree" (Utf8.encode "\"tr\\u0065e\"") :=
    ⟨_, .cons (charText_plain (c := 't') rfl) (.cons (charText_plain (c := 'r') rfl)
      (.cons (.unit hunit) (.cons (charText_plain (c := 'e') rfl) .nil))), rfl⟩
  exact ⟨_, hname, [Octet.space], [Octet.space], blank_space, blank_space, rfl⟩

theorem twoStaged_spelled : twoStaged.Spelled twoStagedDocument := by
  have hzero : Text [Octet.zero] := by
    refine .number ⟨[], [Octet.zero], [], [], List.mem_cons_self, ?_, .inl rfl, .inl rfl, rfl⟩
    exact ⟨⟨List.cons_ne_nil _ _, List.forall_mem_singleton.mpr rfl⟩, fun _ => rfl⟩
  have hentries : ∀ e ∈ [("x", [Octet.zero]), ("inputs", twoStagedInputs), ("tree", twoStagedTree)],
      (∀ slot ∈ twoStaged.slots, slot.name = e.1 → slot.spelled e.2) ∧
        ((∀ slot ∈ twoStaged.slots, slot.name ≠ e.1) → Text e.2) := by
    simp only [List.forall_mem_cons, slots]
    refine ⟨⟨by simp, fun _ => hzero⟩, ⟨?_, by simp⟩, ⟨?_, by simp⟩, List.forall_mem_nil _⟩
    · simpa using twoStagedInputs_text
    · simpa using twoStagedTree_text
  have hrow := Row.first (P := fun e => NamedMember e.1 e.2) (x := ("x", [Octet.zero]))
    blank_nil (namedMember_quoted "x" _ rfl)
    (.item (x := ("inputs", twoStagedInputs)) blank_nil blank_nil
      (namedMember_quoted "inputs" _ rfl)
      (.item (x := ("tree", twoStagedTree)) blank_nil blank_nil twoStagedTree_member
        (.done blank_nil)))
  have htext : RecordText twoStaged.slots _ :=
    ⟨_, _, hrow, rfl, by simp [slots], by simp [slots, twoStaged], hentries⟩
  exact ⟨[], _, [Octet.lineFeed], blank_nil, by simp [Blank], htext, by decide +kernel⟩

theorem decode_spelled_twoStaged :
    (Value.object twoStaged.input.files).Fits (maxLevels - 4) ∧
      twoStaged.Spelled twoStagedDocument ∧ decode twoStagedDocument = .ok twoStaged :=
  ⟨twoStaged_fits, twoStaged_spelled, decode_spelled twoStaged_fits twoStaged_spelled⟩

end GzipStage.Arguments
