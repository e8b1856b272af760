import GzipStage.Proofs.Arguments.Resolve
import GzipStage.Proofs.Stage.Compress

/-! Whole runs of the stage: planning, which only reads, followed by compressing one file into
another. -/
namespace GzipStage

open FileSystem Gzip

/-- Whether an error says that the arguments do not name two paths. -/
def StageError.Unresolved : StageError → Prop
  | .missingField _ | .resolution _ => True
  | .io _ _ _ | .decode _ => False

namespace Arguments

variable {e : StageError}

theorem nonEmpty_error {text field : String} (h : nonEmpty text field = .error e) :
    e.Unresolved := by
  unfold nonEmpty at h
  split at h
  · rw [← Except.error.inj h]
    trivial
  · cases h

theorem joinUnder_error {base name field : String} (h : joinUnder base name field = .error e) :
    e.Unresolved := by
  obtain hname | ⟨relative, _, hpath⟩ := error_of_bind h
  · exact nonEmpty_error hname
  · cases hpath

theorem resolveSource_error {a : Arguments} (h : a.resolveSource = .error e) : e.Unresolved := by
  by_cases hlength : a.input.files.length = 1
  · obtain ⟨⟨id, value⟩, hfiles⟩ := List.length_eq_one_iff.mp hlength
    rw [resolveSource_one hfiles] at h
    obtain hdirectory | ⟨directory, _, hjoin⟩ := error_of_bind h
    · exact nonEmpty_error hdirectory
    · exact joinUnder_error hjoin
  · rw [resolveSource_many hlength] at h
    rw [← Except.error.inj h]
    trivial

theorem resolveTarget_error {a : Arguments} (h : a.resolveTarget = .error e) : e.Unresolved := by
  obtain htree | ⟨tree, _, hjoin⟩ := error_of_bind h
  · exact nonEmpty_error htree
  · exact joinUnder_error hjoin

end Arguments

namespace Stage

variable {stage : Stage} {fs after : FileSystem} {log : List Log.Record} {plan : Plan}
  {e : StageError} {P : Platform}

theorem paths_error {a : Arguments} (h : paths a = .error e) : e.Unresolved := by
  obtain hsource | ⟨source, _, hrest⟩ := error_of_bind h
  · exact Arguments.resolveSource_error hsource
  obtain htarget | ⟨target, _, hplan⟩ := error_of_bind hrest
  · exact Arguments.resolveTarget_error htarget
  · cases hplan

/-- What planning can fail with: the document cannot be read or decoded, or it does not name two
paths. -/
theorem plan_error (h : (stage.plan fs).1 = .error e) :
    (∃ cause, e = .io .readingArguments stage.argumentsPath cause) ∨
      (∃ error, e = .decode error) ∨ e.Unresolved := by
  simp only [Stage.plan, planFor, decodeArguments] at h
  match hread : fs.read stage.argumentsPath with
  | .error cause =>
    simp only [hread, Except.error.injEq] at h
    exact .inl ⟨cause, h.symm⟩
  | .ok document =>
    match hdecode : Arguments.decode document with
    | .error error =>
      simp only [hread, hdecode, Except.error.injEq] at h
      exact .inr (.inl ⟨error, h.symm⟩)
    | .ok a =>
      match hpaths : paths a with
      | .error e' =>
        simp only [hread, hdecode, hpaths, Except.error.injEq] at h
        subst h
        exact .inr (.inr (paths_error hpaths))
      | .ok plan => simp [hread, hdecode, hpaths] at h

theorem read_of_plan (h : (stage.plan fs).1 = .ok plan) :
    ∃ document, fs.read stage.argumentsPath = .ok document := by
  simp only [Stage.plan, planFor, decodeArguments] at h
  match hread : fs.read stage.argumentsPath with
  | .error cause => simp [hread] at h
  | .ok document => exact ⟨document, rfl⟩

theorem run_eq (stage : Stage) (fs : FileSystem) (P : Platform) :
    stage.run fs P =
      match stage.plan fs with
      | (.error e, log) => (.error e, fs, log)
      | (.ok plan, log) =>
        let (answer, after, more) := compressFile fs plan P
        (answer.map fun _ => plan, after, log ++ more) := by
  have hread : P.files.read stage.argumentsPath fs = (fs.read stage.argumentsPath, fs) := rfl
  simp only [Stage.run, Stage.plan, Files.run, StateT.run, bind, StateT.bind, hread]
  rcases stage.planFor (fs.read stage.argumentsPath) with ⟨e | plan, log⟩
  · rfl
  · rfl

theorem run_of_plan_error (h : (stage.plan fs).1 = .error e) :
    stage.run fs P = (.error e, fs, (stage.plan fs).2) := by
  rw [run_eq]
  rcases hplan : stage.plan fs with ⟨e' | plan, planned⟩
  · rw [hplan] at h
    cases h
    rfl
  · rw [hplan] at h
    cases h

/-- A run with a plan is compressing the source of the plan into its target. -/
theorem run_of_plan (h : (stage.plan fs).1 = .ok plan) :
    stage.run fs P = ((compressFile fs plan P).1.map fun _ => plan, (compressFile fs plan P).2.1,
      (stage.plan fs).2 ++ (compressFile fs plan P).2.2) := by
  rw [run_eq]
  rcases hplan : stage.plan fs with ⟨e | plan', planned⟩
  · rw [hplan] at h
    cases h
  · rw [hplan] at h
    cases h
    rfl

theorem run_ok_iff : stage.run fs P = (.ok plan, after, log) ↔
    (stage.plan fs).1 = .ok plan ∧ ∃ more, compressFile fs plan P = (.ok (), after, more) ∧
      log = (stage.plan fs).2 ++ more := by
  constructor
  · intro h
    cases hplan : (stage.plan fs).1 with
    | error e =>
      rw [run_of_plan_error hplan] at h
      cases h
    | ok plan' =>
      rw [run_of_plan hplan] at h
      rcases hfile : compressFile fs plan' P with ⟨e | done, after', more⟩
      · rw [hfile] at h
        cases h
      · rw [hfile] at h
        cases h
        exact ⟨rfl, more, hfile, rfl⟩
  · rintro ⟨hplan, more, hfile, rfl⟩
    rw [run_of_plan hplan, hfile]
    rfl

/-- A run that succeeds has compressed the source of the plan into its target. -/
theorem run_ok (h : stage.run fs P = (.ok plan, after, log)) :
    (stage.plan fs).1 = .ok plan ∧ ∃ more, Compressed P fs plan (.ok ()) after more := by
  obtain ⟨hplan, more, hfile, _⟩ := run_ok_iff.mp h
  exact ⟨hplan, more, compressed_of_eq hfile⟩

/-- A run that fails has failed either in planning or in compressing. -/
theorem run_error (h : stage.run fs P = (.error e, after, log)) :
    (stage.plan fs).1 = .error e ∧ after = fs ∨
      ∃ plan more, (stage.plan fs).1 = .ok plan ∧ Compressed P fs plan (.error e) after more := by
  cases hplan : (stage.plan fs).1 with
  | error e' =>
    rw [run_of_plan_error hplan, Prod.mk.injEq, Prod.mk.injEq] at h
    exact .inl ⟨congrArg _ (Except.error.inj h.1), h.2.1.symm⟩
  | ok plan =>
    have hcompressed := compressFile_compressed fs plan P
    rw [run_of_plan hplan, Prod.mk.injEq, Prod.mk.injEq] at h
    obtain ⟨hanswer, rfl, _⟩ := h
    cases hfile : (compressFile fs plan P).1 with
    | ok done =>
      rw [hfile] at hanswer
      cases hanswer
    | error e' =>
      rw [hfile] at hanswer hcompressed
      cases hanswer
      exact .inr ⟨plan, _, rfl, hcompressed⟩

/-- A document `a` that asks for the staged file `i/a` as `t/z`, a directory `i` with the given
entries, an empty directory `t`, and a file of three octets. -/
def sample (staged : List (Bytes × Inode)) : FileSystem where
  nodes :=
    #[.directory 0 [(name "a", 1), (name "i", 2), (name "t", 3)],
      .file (name ("\x7b\"tree\":\"t\",\"inputs\":\x7b\"file\":\x7b\"path\":\"i\"," ++
        "\"data\":\x7b\"files\":\x7b\"a\":\x7b\x7d\x7d\x7d\x7d\x7d," ++
        "\"options\":\x7b\"filename\":\"z\"\x7d\x7d")),
      .directory 0 staged, .directory 0 [], .file [1, 2, 3]]
  working := 0

def samplePlan : Plan := ⟨.ofString "i/a", .ofString "t/z"⟩

set_option maxRecDepth 100000 in
theorem plan_sample (staged : List (Bytes × Inode)) :
    ((⟨.ofString "a"⟩ : Stage).plan (sample staged)).1 = .ok samplePlan := by
  have hread : (sample staged).read (.ofString "a") = (sample []).read (.ofString "a") := by rfl
  have hempty : ((⟨.ofString "a"⟩ : Stage).plan (sample [])).1.toOption = some samplePlan := by
    decide +kernel
  unfold Stage.plan at hempty ⊢
  rw [hread]
  exact eq_ok_of_toOption hempty

theorem run_sample : ∃ after log,
    (⟨.ofString "a"⟩ : Stage).run (sample [(name "a", 4)]) = (.ok samplePlan, after, log) := by
  have hsource : (sample [(name "a", 4)]).locate samplePlan.source = .ok 4 := by rfl
  have hfound : (sample [(name "a", 4)]).resolve .create samplePlan.target =
      .ok (.entry 3 (name "z")) := by rfl
  obtain ⟨after, more, hfile⟩ := compressFile_ok hsource hfound trivial rfl
  have hrun : (⟨.ofString "a"⟩ : Stage).run (sample [(name "a", 4)]) = _ :=
    run_of_plan (plan_sample [(name "a", 4)])
  rw [hfile] at hrun
  exact ⟨_, _, hrun⟩

/-- What a run that fails may have changed, and the path that its error blames. -/
def Blames (stage : Stage) (fs after : FileSystem) : StageError → Prop
  | .decode _ | .resolution _ | .missingField _ => after = fs
  | .io .readingArguments path _ => path = stage.argumentsPath ∧ after = fs
  | .io .openingSource path _ =>
    after = fs ∧ ∃ plan, (stage.plan fs).1 = .ok plan ∧ path = plan.source
  | .io .creatingTarget path _ =>
    after = fs ∧ ∃ plan, (stage.plan fs).1 = .ok plan ∧ path = plan.target
  | .io .readingSource path _ =>
    ∃ plan, (stage.plan fs).1 = .ok plan ∧ path = plan.source ∧
      fs.ChangedOnlyAt after plan.target
  | .io .writingTarget path _ =>
    ∃ plan, (stage.plan fs).1 = .ok plan ∧ path = plan.target ∧
      fs.ChangedOnlyAt after plan.target
  | .io (.other _) _ _ => False

/-- A run that fails while it plans, or before there is a target, changes nothing.  One that fails
later changes nothing but the target.  The error blames the path of the step that failed. -/
theorem run_error_blames (h : stage.run fs P = (.error e, after, log)) :
    stage.Blames fs after e := by
  obtain ⟨hplan, rfl⟩ | ⟨plan, more, hplan, hcompressed⟩ := run_error h
  · obtain ⟨cause, rfl⟩ | ⟨error, rfl⟩ | hunresolved := plan_error hplan
    · exact ⟨rfl, rfl⟩
    · exact rfl
    · cases e with
      | missingField field => exact rfl
      | resolution listing => exact rfl
      | io operation path cause => exact hunresolved.elim
      | decode error => exact hunresolved.elim
  · have hchanged := hcompressed.changedOnlyAt
    cases hcompressed with
    | unopened hsource => exact ⟨rfl, plan, hplan, rfl⟩
    | uncreated htarget => exact ⟨rfl, plan, hplan, rfl⟩
    | unread written hfound => exact ⟨plan, hplan, rfl, hchanged⟩
    | unwritten written hfound => exact ⟨plan, hplan, rfl, hchanged⟩

/-- A staged file that is missing is blamed on the path of the source. -/
theorem run_error_blames_source : ∃ after log cause,
    (⟨.ofString "a"⟩ : Stage).run (sample []) =
      (.error (.io .openingSource (.ofString "i/a") cause), after, log) ∧
    after = sample [] := by
  have hfile : compressFile (sample []) samplePlan =
      (.error (.io .openingSource (.ofString "i/a") .noEntry), sample [], []) := by rfl
  have hrun : (⟨.ofString "a"⟩ : Stage).run (sample []) = _ := run_of_plan (plan_sample [])
  rw [hfile] at hrun
  exact ⟨_, _, _, hrun, (run_error_blames hrun).1⟩

/-- A run that succeeds from a file into another one has followed the plan.  The target is one
whole member with the contents of the source, and nothing else has changed: the source and the
document are what they were, unless the target is the document. -/
theorem run_compresses (hP : P.Faithful) {source : Inode} {held : Bytes}
    (h : stage.run fs P = (.ok plan, after, log)) (hsource : fs.locate plan.source = .ok source)
    (hheld : fs.nodes[source]? = some (.file held))
    (htarget : ∀ i, fs.locate plan.target = .ok i →
      i ≠ source ∧ ∃ old, fs.nodes[i]? = some (.file old)) :
    (stage.plan fs).1 = .ok plan ∧
      (∃ octets, after.read plan.target = .ok octets ∧ IsMember octets held) ∧
      fs.ChangedOnlyAt after plan.target ∧ after.read plan.source = .ok held ∧
      (fs.locate plan.target ≠ fs.locate stage.argumentsPath →
        after.read stage.argumentsPath = fs.read stage.argumentsPath) := by
  obtain ⟨hplan, more, hcompressed⟩ := run_ok h
  have hchanged := hcompressed.changedOnlyAt
  have hother : fs.locate plan.target ≠ .ok source := by
    intro hsame
    exact (htarget source hsame).1 rfl
  have hfiles : ∀ i, fs.locate plan.target = .ok i → ∃ old, fs.nodes[i]? = some (.file old) := by
    intro i hi
    exact (htarget i hi).2
  obtain ⟨octets, contents, hread, hmember, _, hcontents⟩ :=
    hcompressed.member hP hsource hheld hfiles
  obtain rfl := hcontents hother
  refine ⟨hplan, ⟨octets, hread, hmember⟩, hchanged, ?_, ?_⟩
  · rw [hchanged.read hsource hheld hother, FileSystem.read, hsource]
    simp only [bind, Except.bind, FileSystem.contents, hheld]
  · intro hdocument
    obtain ⟨document, hdocument'⟩ := read_of_plan hplan
    obtain ⟨i, node, hlocate, hnode⟩ := node_of_read hdocument'
    exact hchanged.read hlocate hnode (hlocate ▸ hdocument)

/-- A staged file of three octets becomes a member for them. -/
theorem run_compresses_sample : ∃ after log octets,
    (⟨.ofString "a"⟩ : Stage).run (sample [(name "a", 4)]) = (.ok samplePlan, after, log) ∧
      after.read samplePlan.target = .ok octets ∧ IsMember octets [1, 2, 3] := by
  have hsource : (sample [(name "a", 4)]).locate samplePlan.source = .ok 4 := by rfl
  have hheld : (sample [(name "a", 4)]).nodes[4]? = some (.file [1, 2, 3]) := by rfl
  have hfree : (sample [(name "a", 4)]).locate samplePlan.target = .error .noEntry := by rfl
  obtain ⟨after, log, hrun⟩ := run_sample
  obtain ⟨_, ⟨octets, hread, hmember⟩, _⟩ :=
    run_compresses Platform.default_faithful hrun hsource hheld (by simp [hfree])
  exact ⟨after, log, octets, hrun, hread, hmember⟩

end Stage

end GzipStage
