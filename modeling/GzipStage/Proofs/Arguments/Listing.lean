import GzipStage.Proofs.Arguments.Decode
import GzipStage.Proofs.Json.Compact
import GzipStage.Proofs.Json.Fits
import GzipStage.Proofs.Stage.Plan

/-! The listing of the staged files tells what they are. -/
namespace GzipStage.Arguments

open Json

variable {levels : Nat} {s rest document : Bytes} {a : Arguments} {files : Members}

/-- No number in what is said about the staged files is a double. -/
def FloatFree (files : Members) : Prop := ∀ m ∈ files, m.2.FloatFree

/-! ### What is decoded fits -/

/-- The staged files nest no deeper than `levels`, unless there is a double among them. -/
def FilesFit (levels : Nat) (files : Members) : Prop :=
  FloatFree files → (Value.object files).Fits levels

theorem filesFit_nil : FilesFit (levels + 1) [] := fun _ => .object .nil (List.forall_mem_nil _)

theorem data_fits (h : dataReader (levels + 2) s = .ok (files, rest)) :
    FilesFit (levels + 1) files := by
  refine record_keeps (List.forall_mem_singleton.mpr ?_) filesFit_nil h
  intro _ s y rest hread _
  obtain ⟨files, hfiles, rfl⟩ := field_ok_iff.mp hread
  exact map_fits hfiles

theorem file_fits {input : FileInput} (h : fileReader (levels + 3) s = .ok (input, rest)) :
    FilesFit (levels + 1) input.files := by
  refine record_keeps (P := fun input => FilesFit (levels + 1) input.files)
    (List.forall_mem_cons.mpr ⟨?_, List.forall_mem_singleton.mpr ?_⟩) filesFit_nil h
  · intro _ s y rest hread hkept
    obtain ⟨path, _, rfl⟩ := field_ok_iff.mp hread
    exact hkept
  · intro _ s y rest hread _
    obtain ⟨files, hfiles, rfl⟩ := field_ok_iff.mp hread
    exact data_fits hfiles

theorem inputs_fits {input : FileInput} (h : inputsReader (levels + 4) s = .ok (input, rest)) :
    FilesFit (levels + 1) input.files := by
  refine record_keeps (P := fun input => FilesFit (levels + 1) input.files)
    (List.forall_mem_singleton.mpr ?_) filesFit_nil h
  intro _ s y rest hread _
  obtain ⟨input, hinput, rfl⟩ := field_ok_iff.mp hread
  exact file_fits hinput

theorem reader_fits (h : reader (levels + 5) s = .ok (a, rest)) :
    FilesFit (levels + 1) a.input.files := by
  refine record_keeps (P := fun a => FilesFit (levels + 1) a.input.files) ?_ filesFit_nil h
  refine List.forall_mem_cons.mpr
    ⟨?_, List.forall_mem_cons.mpr ⟨?_, List.forall_mem_singleton.mpr ?_⟩⟩
  · intro _ s y rest hread hkept
    obtain ⟨tree, _, rfl⟩ := field_ok_iff.mp hread
    exact hkept
  · intro _ s y rest hread _
    obtain ⟨input, hinput, rfl⟩ := field_ok_iff.mp hread
    exact inputs_fits hinput
  · intro _ s y rest hread hkept
    obtain ⟨filename, _, rfl⟩ := field_ok_iff.mp hread
    exact hkept

theorem decode_fits (h : decode document = .ok a) : FilesFit (maxLevels - 4) a.input.files := by
  obtain ⟨rest, hread, _⟩ := document_ok_iff.mp h
  exact reader_fits hread

/-! ### Listings -/

/-- The document that holds a listing as the map of staged files and nothing else. -/
def listingDocument (listing : String) : Bytes :=
  Utf8.encode ("\x7b\"inputs\":\x7b\"file\":\x7b\"data\":\x7b\"files\":" ++ listing ++
    "\x7d\x7d\x7d\x7d")

theorem plain_names : ∀ name ∈ ["files", "data", "file", "inputs"],
    name.toList.all isPlain = true := by
  decide

theorem listingDocument_text (hfits : (Value.object files).Fits levels) :
    RecordText (slots { input := { files } }) (listingDocument files.render) := by
  have hdata := @recordText_quoted (dataSlots files) _ _ (List.mem_singleton_self _)
    (plain_names "files" (by simp)) (by simpa [dataSlots] using hfits.spelled) (by simp [dataSlots])
  have hfile := @recordText_quoted (fileSlots { files }) _ _
    (List.mem_cons_of_mem _ (List.mem_singleton_self _)) (plain_names "data" (by simp))
    (by simpa [fileSlots] using hdata) (by simp [fileSlots])
  have hinputs := @recordText_quoted (inputsSlots { files }) _ _ (List.mem_singleton_self _)
    (plain_names "file" (by simp)) (by simpa [inputsSlots] using hfile) (by simp [inputsSlots])
  have hdocument := @recordText_quoted (slots { input := { files } }) _ _
    (List.mem_cons_of_mem _ List.mem_cons_self) (plain_names "inputs" (by simp))
    (by simpa [slots] using hinputs) (by simp [slots])
  have hopen : Utf8.encode "\x7b\"inputs\":\x7b\"file\":\x7b\"data\":\x7b\"files\":" =
      ["inputs", "file", "data", "files"].flatMap fun name =>
        Octet.openBrace :: (quoted name ++ [Octet.colon]) := by
    decide +kernel
  have hclose : Utf8.encode "\x7d\x7d\x7d\x7d" = List.replicate 4 Octet.closeBrace := by decide
  have hlisting : Utf8.encode files.render = (Value.object files).text := rfl
  rw [listingDocument, Utf8.encode_append, Utf8.encode_append, hopen, hclose, hlisting]
  simpa [inBraces, List.replicate] using hdocument

theorem decode_listingDocument (hfits : (Value.object files).Fits (maxLevels - 4)) :
    decode (listingDocument files.render) = .ok { input := { files } } := by
  have htext := listingDocument_text hfits
  have hread := reads_arguments (a := { input := { files } }) hfits htext [] [] blank_nil nofun
  rw [List.nil_append, List.append_nil] at hread
  exact document_ok_iff.mpr ⟨[], hread, blank_nil⟩

theorem resolveSource_listing_iff {listing : String} :
    a.resolveSource = .error (.resolution listing) ↔
      a.input.files.length ≠ 1 ∧ listing = a.input.files.render := by
  constructor
  · intro h
    obtain ⟨row, hmem, hrow⟩ := ((resolveSource_failsBy a _).mp h).mem
    simp only [rows, List.take_succ_cons, List.take_zero, List.map_cons, List.map_nil,
      List.mem_cons, List.not_mem_nil, or_false] at hmem
    rcases hmem with rfl | rfl | rfl
    · obtain ⟨hmany, listing', hlaid, hsame⟩ := hrow
      cases hsame
      have hprinted := Members.serialize_ok_iff.mpr hlaid
      rw [Members.serialize_eq] at hprinted
      exact ⟨hmany, (Except.ok.inj hprinted).symm⟩
    · cases hrow.2
    · cases hrow.2
  · rintro ⟨hmany, rfl⟩
    exact resolveSource_many hmany

/-- The listing of staged files that are not exactly one is compact and is decoded to the same
files, so that two listings are the same only if the files are. -/
theorem listing_faithful (h : decode document = .ok a) (hfree : FloatFree a.input.files)
    (hmany : a.input.files.length ≠ 1) :
    ∃ listing, a.resolveSource = .error (.resolution listing) ∧
      CompactText (Utf8.encode listing) ∧
      decode (listingDocument listing) = .ok { input := { files := a.input.files } } ∧
      ∀ document' b listing', decode document' = .ok b → FloatFree b.input.files →
        b.resolveSource = .error (.resolution listing') →
        (listing = listing' ↔ a.input.files = b.input.files) := by
  have hfits := decode_fits h hfree
  refine ⟨a.input.files.render, resolveSource_listing_iff.mpr ⟨hmany, rfl⟩, hfits.compactText,
    decode_listingDocument hfits, ?_⟩
  intro document' b listing' h' hfree' hlisting'
  obtain ⟨_, rfl⟩ := resolveSource_listing_iff.mp hlisting'
  constructor
  · intro hsame
    have hdecode := decode_listingDocument hfits
    rw [hsame, decode_listingDocument (decode_fits h' hfree')] at hdecode
    exact (congrArg (fun a => a.input.files) (Except.ok.inj hdecode)).symm
  · intro hsame
    rw [hsame]

def twoListed : String := "\x7b\"a\":null,\"b\":-1\x7d"

theorem listing_faithful_twoStaged :
    decode twoStagedDocument = .ok twoStaged ∧ FloatFree twoStaged.input.files ∧
      twoStaged.resolveSource = .error (.resolution twoListed) ∧
      CompactText (Utf8.encode twoListed) ∧
      decode (listingDocument twoListed) = .ok { input := { files := twoStaged.input.files } } ∧
      (twoListed = "\x7b\x7d" ↔ twoStaged.input.files = []) := by
  have hdecode : decode twoStagedDocument = .ok twoStaged := by
    obtain ⟨before, text, after, hbefore, hafter, htext, hdocument⟩ := twoStaged_spelled
    have hstops : Stops after := List.append_nil after ▸ stops_of_blank hafter (by simp [Stops])
    rw [hdocument]
    exact document_ok_iff.mpr
      ⟨after, reads_arguments twoStaged_fits htext before after hbefore hstops, hafter⟩
  have hfree : FloatFree twoStaged.input.files :=
    List.forall_mem_cons.mpr ⟨.null, List.forall_mem_singleton.mpr (.integer (-1))⟩
  have hlisted : twoListed = twoStaged.input.files.render := by decide +kernel
  have hempty : decode (listingDocument "\x7b\x7d") = .ok {} :=
    @decode_listingDocument [] (.object .nil (List.forall_mem_nil _))
  obtain ⟨listing, hlisting, hcompact, hback, hsame⟩ := listing_faithful hdecode hfree (by decide)
  obtain rfl : listing = twoListed := hlisted ▸ (resolveSource_listing_iff.mp hlisting).2
  exact ⟨hdecode, hfree, hlisting, hcompact, hback, hsame _ _ _ hempty (List.forall_mem_nil _) rfl⟩

end GzipStage.Arguments
