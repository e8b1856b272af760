import GzipStage.Arguments.Basic
import GzipStage.Proofs.Json.Settled.Read

/-! No document of arguments begins another one. -/
namespace GzipStage.Arguments

open Json

variable {document more : Bytes} {a b : Arguments}

theorem data_selfDelimiting (levels : Nat) : SelfDelimiting (dataReader levels) := by
  refine record_selfDelimiting (fun levels => List.forall_mem_singleton.mpr fun files => ?_) levels
  exact field_settled (map_selfDelimiting levels).settled files

theorem file_selfDelimiting (levels : Nat) : SelfDelimiting (fileReader levels) := by
  refine record_selfDelimiting (fun levels => ?_) levels
  refine List.forall_mem_cons.mpr ⟨?_, List.forall_mem_singleton.mpr ?_⟩
  · exact field_settled (string_selfDelimiting levels).settled
  · exact field_settled (data_selfDelimiting levels).settled

theorem inputs_selfDelimiting (levels : Nat) : SelfDelimiting (inputsReader levels) := by
  refine record_selfDelimiting (fun levels => List.forall_mem_singleton.mpr ?_) levels
  exact field_settled (file_selfDelimiting levels).settled

theorem options_selfDelimiting (levels : Nat) : SelfDelimiting (optionsReader levels) := by
  refine record_selfDelimiting (fun levels => List.forall_mem_singleton.mpr ?_) levels
  exact field_settled (string_selfDelimiting levels).settled

theorem reader_selfDelimiting (levels : Nat) : SelfDelimiting (reader levels) := by
  refine record_selfDelimiting (fun levels => ?_) levels
  refine List.forall_mem_cons.mpr
    ⟨?_, List.forall_mem_cons.mpr ⟨?_, List.forall_mem_singleton.mpr ?_⟩⟩
  · exact field_settled (string_selfDelimiting levels).settled
  · exact field_settled (inputs_selfDelimiting levels).settled
  · exact field_settled (options_selfDelimiting levels).settled

theorem decode_append_ok_iff (h : decode document = .ok a) :
    decode (document ++ more) = .ok b ↔ Blank more ∧ b = a := by
  obtain ⟨rest, hread, hrest⟩ := document_ok_iff.mp h
  have hmore := reader_selfDelimiting maxLevels document a rest more hread
  rw [decode, document_ok_iff, hmore]
  constructor
  · rintro ⟨left, hleft, hblank⟩
    cases hleft
    exact ⟨fun c hc => hblank c (List.mem_append_right rest hc), rfl⟩
  · rintro ⟨hblank, rfl⟩
    exact ⟨rest ++ more, rfl, List.forall_mem_append.mpr ⟨hrest, hblank⟩⟩

/-- No document that is accepted is the beginning of another one, blanks at the end apart. -/
theorem decode_prefixFree (h : decode document = .ok a) :
    (∀ more b, decode (document ++ more) = .ok b ↔ Blank more ∧ b = a) ∧
      (∀ more, ¬ Blank more → ∃ e, decode (document ++ more) = .error e) ∧
      ∀ kept cut, document = kept ++ cut → ¬ Blank cut → ∃ e, decode kept = .error e := by
  refine ⟨fun more b => decode_append_ok_iff h, ?_, ?_⟩
  · intro more hmore
    cases hdecode : decode (document ++ more) with
    | error e => exact ⟨e, rfl⟩
    | ok b => exact absurd ((decode_append_ok_iff h).mp hdecode).1 hmore
  · rintro kept cut rfl hcut
    cases hdecode : decode kept with
    | error e => exact ⟨e, rfl⟩
    | ok b => exact absurd ((decode_append_ok_iff hdecode).mp h).1 hcut

/-- A document written as a list, with a value that is passed over in it and a blank at its end. -/
def listedDocument : Bytes :=
  Utf8.encode ("[\"/out\",[[\"/in\",[\x7b\"a\":[-1.5e3]\x7d]]]," ++
    "\x7b\"level\":9,\"filename\":\"n\\u00e9\"\x7d]\n")

theorem decode_prefixFree_listed : ∃ a, decode listedDocument = .ok a ∧ a.filename = "né" ∧
    decode (listedDocument ++ [Octet.tab, Octet.carriageReturn]) = .ok a ∧
    (∃ e, decode (listedDocument ++ [Octet.closeBracket]) = .error e) ∧
    ∃ e, decode (Utf8.encode "[\"/out\"") = .error e := by
  have hname : (decode listedDocument).toOption.map (fun a => a.filename) = some "né" := by
    decide +kernel
  obtain ⟨a, hdecode, hfilename⟩ := Option.map_eq_some_iff.mp hname
  have h := eq_ok_of_toOption hdecode
  obtain ⟨hblank, hmore, hcut⟩ := decode_prefixFree h
  refine ⟨a, h, hfilename, (hblank _ _).mpr ⟨by decide, rfl⟩, hmore _ (by decide), ?_⟩
  exact hcut _ (listedDocument.drop 7) (by decide +kernel) (by decide +kernel)

end GzipStage.Arguments
