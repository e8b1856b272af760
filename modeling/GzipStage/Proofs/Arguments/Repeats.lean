import GzipStage.Proofs.Arguments.Listing
import GzipStage.Proofs.Arguments.Parts

/-! Members that are repeated. -/
namespace GzipStage.Arguments

open Json

variable {document s : Bytes} {a : Arguments} {p : Part} {entries : List (String × Bytes)}

/-- Somewhere in the document a field stands twice in an object. -/
def Repeats (document : Bytes) : Prop :=
  ∃ (p : Part) (s : Bytes) (entries : List (String × Bytes)) (name : String),
    At document p s ∧ ObjectText entries s ∧ name ∈ p.names ∧
      1 < (entries.map Prod.fst).count name

theorem At.count_le_one (hat : At document p s) (h : decode document = .ok a)
    (hs : ObjectText entries s) {name : String} (hname : name ∈ p.names) :
    (entries.map Prod.fst).count name ≤ 1 := by
  obtain ⟨⟨name, q⟩, hfield, rfl⟩ := List.mem_map.mp hname
  have hfilled := (Part.says_iff (fields_ne_nil hfield) (.object hs)).mp (hat.holds h)
  exact hfilled.once _ (slot_mem hfield)

theorem Repeats.rejected (h : Repeats document) : ∃ e, decode document = .error e := by
  obtain ⟨p, s, entries, name, hat, hs, hname, hmany⟩ := h
  cases hdecode : decode document with
  | error e => exact ⟨e, rfl⟩
  | ok a => exact absurd (hat.count_le_one hdecode hs hname) (Nat.not_le.mpr hmany)

theorem At.latest (hat : At document .files s) (h : decode document = .ok a) :
    ∃ entries, ObjectText entries s ∧ Latest entries a.input.files := by
  have hreads : Reads (map (maxLevels - 5 + 1)) s a.input.files := hat.holds h
  obtain ⟨entries, hs⟩ := objectText_of_reads_map hat.isText hreads
  exact ⟨entries, hs, latest_of_reads_map hs (by decide) hreads⟩

/-- A document in which a field is repeated is rejected.  In one that is accepted the staged files
are the last ones of their names, and there is exactly one only if there is one name. -/
theorem decode_repeats (document : Bytes) :
    (Repeats document → ∃ e, decode document = .error e) ∧
      ∀ a, decode document = .ok a →
        (∀ p s, At document p s → p.fields ≠ [] → ∃ entries, RecordForm p.names entries s) ∧
        (∀ p s entries name, At document p s → ObjectText entries s → name ∈ p.names →
          (entries.map Prod.fst).count name ≤ 1) ∧
        ((∀ s, ¬ At document .files s) → a.input.files = []) ∧
        ∀ s, At document .files s → ∃ entries, ObjectText entries s ∧
          Latest entries a.input.files ∧
          ((∃ listing, a.resolveSource = .error (.resolution listing)) ↔
            (entries.map Prod.fst).dedup.length ≠ 1) := by
  refine ⟨Repeats.rejected, fun a h => ⟨?_, ?_, ?_, ?_⟩⟩
  · intro p s hat hp
    exact (hat.form h hp).1
  · intro p s entries name hat hs hname
    exact hat.count_le_one h hs hname
  · exact fun hnot => isDefault_of_not_at h hnot
  · intro s hat
    obtain ⟨entries, hs, hlatest⟩ := hat.latest h
    refine ⟨entries, hs, hlatest, ?_⟩
    rw [← hlatest.length]
    constructor
    · rintro ⟨listing, hlisting⟩
      exact (resolveSource_listing_iff.mp hlisting).1
    · intro hmany
      exact ⟨_, resolveSource_listing_iff.mpr ⟨hmany, rfl⟩⟩

def repeatedInputs : String := "\x7b\"file\":[],\"f\\u0069le\":\x7b\x7d\x7d"

def repeatedDocument : Bytes :=
  Utf8.encode ("\x7b\"x\":\x7b\"file\":0\x7d,\"inputs\":" ++ repeatedInputs ++ "\x7d")

theorem repeats_repeatedDocument : Repeats repeatedDocument := by
  have hdocument : ObjectText
      [("x", Utf8.encode "\x7b\"file\":0\x7d"), ("inputs", Utf8.encode repeatedInputs)]
      repeatedDocument := by decide +kernel
  have hinputs : ObjectText [("file", Utf8.encode "[]"), ("file", Utf8.encode "\x7b\x7d")]
      (Utf8.encode repeatedInputs) := by decide +kernel
  have hat : At repeatedDocument .inputs (Utf8.encode repeatedInputs) :=
    (at_self hdocument.isText).field (.object hdocument) (by decide)
      (List.mem_cons_of_mem _ List.mem_cons_self)
  exact ⟨.inputs, _, _, "file", hat, hinputs, by decide, by decide⟩

def restagedFiles : String := "\x7b\"a\":1,\"\\u0061\":[2]\x7d"

/-- The records are written by name and by position, and there are repetitions in what is
skipped. -/
def restagedDocument : Bytes :=
  Utf8.encode ("\x7b\"x\":\x7b\"tree\":0,\"tree\":1\x7d,\"inputs\":[\x7b\"data\":[" ++
    restagedFiles ++ "]\x7d]\x7d")

theorem at_restagedFiles : At restagedDocument .files (Utf8.encode restagedFiles) := by
  have hdocument : ObjectText
      [("x", Utf8.encode "\x7b\"tree\":0,\"tree\":1\x7d"),
        ("inputs", Utf8.encode ("[\x7b\"data\":[" ++ restagedFiles ++ "]\x7d]"))]
      restagedDocument := by decide +kernel
  have hinputs : ListText [Utf8.encode ("\x7b\"data\":[" ++ restagedFiles ++ "]\x7d")]
      (Utf8.encode ("[\x7b\"data\":[" ++ restagedFiles ++ "]\x7d]")) := by decide +kernel
  have hfile : ObjectText [("data", Utf8.encode ("[" ++ restagedFiles ++ "]"))]
      (Utf8.encode ("\x7b\"data\":[" ++ restagedFiles ++ "]\x7d")) := by decide +kernel
  have hdata : ListText [Utf8.encode restagedFiles] (Utf8.encode ("[" ++ restagedFiles ++ "]")) :=
    by decide +kernel
  have hat : At restagedDocument .inputs _ :=
    (at_self hdocument.isText).field (.object hdocument) (by decide)
      (List.mem_cons_of_mem _ List.mem_cons_self)
  have hat : At restagedDocument .file _ :=
    hat.field (.list (by decide) hinputs) (by decide) List.mem_cons_self
  have hat : At restagedDocument .data _ :=
    hat.field (.object hfile) (by decide) List.mem_cons_self
  exact hat.field (.list (by decide) hdata) (by decide) List.mem_cons_self

theorem decode_repeats_restaged :
    Repeats repeatedDocument ∧ (∃ e, decode repeatedDocument = .error e) ∧
      ∃ a, decode restagedDocument = .ok a ∧
        Latest [("a", Utf8.encode "1"), ("a", Utf8.encode "[2]")] a.input.files ∧
        ¬ ∃ listing, a.resolveSource = .error (.resolution listing) := by
  refine ⟨repeats_repeatedDocument, (decode_repeats _).1 repeats_repeatedDocument, ?_⟩
  have hsome : (decode restagedDocument).toOption.isSome := by decide +kernel
  obtain ⟨a, ha⟩ := Option.isSome_iff_exists.mp hsome
  have h := eq_ok_of_toOption ha
  obtain ⟨entries, hs, hlatest, hlisting⟩ :=
    ((decode_repeats _).2 a h).2.2.2 _ at_restagedFiles
  have hfiles : ObjectText [("a", Utf8.encode "1"), ("a", Utf8.encode "[2]")]
      (Utf8.encode restagedFiles) := by decide +kernel
  obtain rfl := hs.unique hfiles
  exact ⟨a, h, hlatest, fun hfailed => hlisting.mp hfailed (by decide)⟩

end GzipStage.Arguments
