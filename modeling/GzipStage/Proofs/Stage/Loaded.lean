import GzipStage.Proofs.Stage.Run
import GzipStage.Proofs.Text.Quoted

/-! The record of a document that has been read tells its tree and its file name. -/
namespace GzipStage

open Log FileSystem

namespace Log

theorem indentLines_append (s t : String) :
    indentLines (s ++ t) = indentLines s ++ indentLines t := by
  rw [indentLines, String.toList_append, List.flatMap_append, String.ofList_append]
  rfl

theorem indentLines_of_not_mem {s : String} (h : '\n' ∉ s.toList) : indentLines s = s := by
  have hstays : ∀ c ∈ s.toList,
      (if c = '\n' then ['\n', ' ', ' ', ' ', ' '] else [c]) = [c] := by
    intro c hc
    exact if_neg (ne_of_mem_of_not_mem hc h)
  rw [indentLines, List.flatMap_congr hstays, List.flatMap_singleton', String.ofList_toList]

end Log

/-- What the record of a document says after the path. -/
def loadedDetail (a : Arguments) : String :=
  ": tree=" ++ Quoted.quote a.tree ++ " filename=" ++ Quoted.quote a.filename

section Detail

variable (path : Path) (a b : Arguments)

theorem loadedRecord_text :
    (loadedRecord path a).text = "loaded arguments from " ++ path.display ++ loadedDetail a := by
  simp only [loadedRecord, loadedDetail, String.append_assoc]

theorem loadedDetail_inj :
    loadedDetail a = loadedDetail b ↔ a.tree = b.tree ∧ a.filename = b.filename := by
  rw [loadedDetail, loadedDetail, ← String.toList_inj]
  simp only [String.toList_append, List.append_assoc, List.append_cancel_left_eq]
  rw [Quoted.quote_append_inj, List.append_cancel_left_eq, String.toList_inj, Quoted.quote_inj]

theorem loadedRecord_inj :
    loadedRecord path a = loadedRecord path b ↔ a.tree = b.tree ∧ a.filename = b.filename := by
  constructor
  · intro h
    have htext := congrArg Record.text h
    rw [loadedRecord_text, loadedRecord_text, String.append_right_inj] at htext
    exact (loadedDetail_inj a b).mp htext
  · rintro ⟨htree, hfilename⟩
    rw [loadedRecord, loadedRecord, htree, hfilename]

theorem printable_loadedDetail : ∀ c ∈ (loadedDetail a).toList, isUnprintable c = false := by
  simp only [loadedDetail, String.toList_append]
  refine List.forall_mem_append.mpr ⟨List.forall_mem_append.mpr ⟨List.forall_mem_append.mpr
    ⟨?_, Quoted.printable_quote _⟩, ?_⟩, Quoted.printable_quote _⟩
  · exact Quoted.printable_ascii (by decide)
  · exact Quoted.printable_ascii (by decide)

/-- The tree and the file name stand on the last line of the record as they are quoted. -/
theorem loadedRecord_line :
    (loadedRecord path a).line = "[DEBUG staticgzip::arguments] loaded arguments from " ++
      indentLines path.display ++ loadedDetail a ++ "\n" := by
  have hfeed : '\n' ∉ (loadedDetail a).toList := fun h => by
    have hprintable := printable_loadedDetail a '\n' h
    rw [BreaksLine.isUnprintable (by decide)] at hprintable
    cases hprintable
  have hintro : indentLines "loaded arguments from " = "loaded arguments from " := by rfl
  have hhead : "[" ++ Level.debug.padded ++ " " ++ "staticgzip::arguments" ++ "] " ++
      "loaded arguments from " = "[DEBUG staticgzip::arguments] loaded arguments from " := by rfl
  rw [Record.line, loadedRecord_text, indentLines_append, indentLines_append, hintro,
    indentLines_of_not_mem hfeed, ← hhead]
  simp only [loadedRecord, String.append_assoc]

end Detail

variable {fs fs' : FileSystem} {path : Path} {a b : Arguments} {log log' : List Record}

theorem loadArguments_log (h : loadArguments fs path = (.ok a, log)) :
    log = [loadedRecord path a] := by
  unfold loadArguments decodeArguments at h
  split at h
  case h_1 => cases h
  case h_2 document hread =>
    split at h
    case h_1 => cases h
    case h_2 decoded hdecode =>
      cases h
      rfl

/-- Two documents that are read from one path are told apart in the log exactly by their trees and
their file names, and each of these texts is read back from where it is quoted, whatever follows it.
What the record says after the path holds no control character and no line break. -/
theorem loadArguments_tells (path : Path) :
    (∀ fs fs' a b log log', loadArguments fs path = (.ok a, log) →
      loadArguments fs' path = (.ok b, log') →
        (log = log' ↔ a.tree = b.tree ∧ a.filename = b.filename)) ∧
      (∀ fs a log, loadArguments fs path = (.ok a, log) → ∃ r, log = [r] ∧
        r.text = "loaded arguments from " ++ path.display ++ loadedDetail a ∧
        r.line = "[DEBUG staticgzip::arguments] loaded arguments from " ++
          indentLines path.display ++ loadedDetail a ++ "\n" ∧
        ∀ c ∈ (loadedDetail a).toList, ¬ IsControl c ∧ ¬ BreaksLine c) ∧
      ∀ s rest, Quoted.unquote? ((Quoted.quote s).toList ++ rest) = some (s, rest) := by
  refine ⟨fun fs fs' a b log log' hload hload' => ?_, fun fs a log hload => ?_,
    Quoted.unquote?_quote⟩
  · rw [loadArguments_log hload, loadArguments_log hload', List.singleton_inj, loadedRecord_inj]
  · refine ⟨_, loadArguments_log hload, loadedRecord_text path a, loadedRecord_line path a,
      fun c hc => ?_⟩
    exact not_breaks_of_printable (printable_loadedDetail a c hc)

/-- A file `a` that holds arguments with the given tree and file name, as they are escaped. -/
def namingBoth (tree filename : String) : FileSystem where
  nodes :=
    #[.directory 0 [(name "a", 1)],
      .file (name ("\x7b\"tree\":\"" ++ tree ++ "\",\"inputs\":\x7b\"file\":\x7b\"path\":\"i\"," ++
        "\"data\":\x7b\"files\":\x7b\x7d\x7d\x7d\x7d," ++
        "\"options\":\x7b\"filename\":\"" ++ filename ++ "\"\x7d\x7d"))]
  working := 0

theorem loads_of_tree (fs : FileSystem) (path : Path) (tree : String)
    (h : (loadArguments fs path).1.toOption.map Arguments.tree = some tree) :
    ∃ a log, loadArguments fs path = (.ok a, log) ∧ a.tree = tree := by
  obtain ⟨a, ha, htree⟩ := Option.map_eq_some_iff.mp h
  exact ⟨a, _, Prod.ext (eq_ok_of_toOption ha) rfl, htree⟩

set_option maxRecDepth 100000 in
/-- A quotation mark in a text does not pass for the end of it. -/
theorem loadArguments_tells_sample : ∃ a b log log',
    loadArguments (namingBoth "x\\\" filename=\\\"y" "z") (.ofString "a") = (.ok a, log) ∧
      loadArguments (namingBoth "x" "y\\\" filename=\\\"z") (.ofString "a") = (.ok b, log') ∧
      log ≠ log' := by
  obtain ⟨a, log, hload, htree⟩ := loads_of_tree
    (namingBoth "x\\\" filename=\\\"y" "z") (.ofString "a") "x\" filename=\"y" (by decide +kernel)
  obtain ⟨b, log', hload', htree'⟩ := loads_of_tree
    (namingBoth "x" "y\\\" filename=\\\"z") (.ofString "a") "x" (by decide +kernel)
  refine ⟨a, b, log, log', hload, hload', fun hsame => ?_⟩
  have hsame := (((loadArguments_tells (.ofString "a")).1 _ _ _ _ _ _ hload hload').mp hsame).1
  rw [htree, htree'] at hsame
  exact absurd hsame (by decide)

end GzipStage
