import GzipStage.Proofs.Stage.Determined
import GzipStage.Proofs.Stage.Plan

/-! How far a run has got, as its log tells: there are three records, one for each step that is
done. -/
namespace GzipStage

open FileSystem Gzip Log Transfer

variable {fs after : FileSystem} {plan : Plan} {e : StageError} {P : Platform}

theorem compressFile_silent (h : (compressFile fs plan P).1 = .error e) :
    (compressFile fs plan P).2.2 = [] := by
  have hcompressed := compressFile_compressed fs plan P
  rw [h] at hcompressed
  generalize (compressFile fs plan P).2.1 = after, (compressFile fs plan P).2.2 = log at hcompressed
  cases hcompressed <;> rfl

theorem nodes_written {p : Path} {found : Found} {contents octets : Bytes}
    (hfound : fs.resolve .create p = .ok found)
    (hoctets : (fs.put contents found).nodes[fs.placeOf found]? = some (.file octets)) :
    octets = contents ∧ (fs.put contents found).read p = .ok octets := by
  have hholds : fs.Holds found := by
    by_contra hnot
    rw [put_eq_self hnot] at hoctets
    cases found with
    | node i => exact hnot ⟨octets, hoctets⟩
    | entry dir name => exact hnot trivial
  rw [nodes_put hfound hholds, Option.some.injEq, Node.file.injEq] at hoctets
  subst hoctets
  exact ⟨rfl, read_put hfound hholds contents⟩

/-- What compressing a file has done when it logs a count: it has read that many octets, and a
target that is a file holds the member for them. -/
def Counted (P : Platform) (fs after : FileSystem) (plan : Plan) (count : Nat) : Prop :=
  ∃ source made target held,
    fs.locate plan.source = .ok source ∧ fs.create plan.target = .ok (made, target) ∧
      made.contents source = .ok held ∧ delivered (readerFor made source P) = held ∧
      held.length = count ∧
      ∀ octets, after.nodes[target]? = some (.file octets) →
        after.read plan.target = .ok octets ∧ IsMember octets held

theorem create_of_compressed {log : List Record}
    (h : compressFile fs plan P = (.ok (), after, log)) :
    ∃ made target, fs.create plan.target = .ok (made, target) := by
  rw [compressFile_eq] at h
  match hsource : fs.locate plan.source, htarget : fs.create plan.target with
  | .error cause, _ => simp [hsource] at h
  | .ok source, .error cause => simp [hsource, htarget] at h
  | .ok source, .ok (made, target) => exact ⟨made, target, rfl⟩

theorem compressFile_counted {log : List Record}
    (h : compressFile fs plan P = (.ok (), after, log)) :
    ∃ count, log = [compressedRecord count plan] ∧
      (P.Faithful → Counted P fs after plan count) := by
  obtain ⟨made, target, hcreate⟩ := create_of_compressed h
  obtain ⟨found, hfound, rfl, rfl⟩ := create_ok hcreate
  cases compressed_of_eq h with
  | @done source found' count written hsource hfound' hresult hwritten =>
    obtain rfl : found = found' := by simpa [hfound] using hfound'
    refine ⟨count, rfl, ?_⟩
    intro hP
    obtain ⟨hheld, hcount, haccepted⟩ := streamed_ok hP hresult
    refine ⟨source, _, _, _, hsource, hcreate, hheld, rfl, hcount.symm, ?_⟩
    intro octets hoctets
    obtain ⟨rfl, hread⟩ := nodes_written hfound hoctets
    refine ⟨hread, ?_⟩
    rw [← hwritten, haccepted]
    exact hP.encoder.output_isMember _

namespace Stage

variable {stage : Stage} {a : Arguments}

/-- Without a document that can be read and decoded there is no plan, and nothing is logged. -/
theorem plan_of_no_document (h : ∀ a, ¬ stage.Holds fs a) :
    ∃ e, stage.plan fs = (.error e, []) := by
  unfold Stage.plan planFor decodeArguments
  match hread : fs.read stage.argumentsPath with
  | .error cause => exact ⟨_, rfl⟩
  | .ok document =>
    dsimp only
    match hdecode : Arguments.decode document with
    | .error error => exact ⟨_, rfl⟩
    | .ok a => exact absurd ⟨document, hread, hdecode⟩ (h a)

theorem plan_of_paths_error (ha : stage.Holds fs a) (h : paths a = .error e) :
    stage.plan fs = (.error e, [loadedRecord stage.argumentsPath a]) := by
  obtain ⟨document, hread, hdecode⟩ := ha
  simp only [Stage.plan, planFor, decodeArguments, hread, hdecode, h]

theorem plan_of_paths (ha : stage.Holds fs a) (h : paths a = .ok plan) :
    stage.plan fs = (.ok plan, [loadedRecord stage.argumentsPath a, plannedRecord plan]) := by
  obtain ⟨document, hread, hdecode⟩ := ha
  simp only [Stage.plan, planFor, decodeArguments, hread, hdecode, h, List.singleton_append]

/-- The records of a run that comes to its end. -/
def records (stage : Stage) (a : Arguments) (plan : Plan) (count : Nat) : List Record :=
  [⟨.debug, "staticgzip::arguments", "loaded arguments from " ++ stage.argumentsPath.display ++
      ": tree=" ++ Quoted.quote a.tree ++ " filename=" ++ Quoted.quote a.filename⟩,
    ⟨.debug, "staticgzip::stage",
      "source=" ++ plan.source.display ++ " target=" ++ plan.target.display⟩,
    ⟨.debug, "staticgzip::compress", "compressed " ++ toString count ++ " bytes from " ++
      plan.source.display ++ " into " ++ plan.target.display⟩]

theorem records_eq (stage : Stage) (a : Arguments) (plan : Plan) (count : Nat) :
    stage.records a plan count =
      [loadedRecord stage.argumentsPath a, plannedRecord plan, compressedRecord count plan] := by
  rfl

theorem run_of_no_document (h : ∀ a, ¬ stage.Holds fs a) :
    ∃ e, stage.run fs P = (.error e, fs, []) := by
  obtain ⟨e, hplan⟩ := plan_of_no_document h
  have hrun : stage.run fs P = _ := run_of_plan_error (congrArg Prod.fst hplan)
  rw [hrun, hplan]
  exact ⟨e, rfl⟩

theorem run_of_paths_error (ha : stage.Holds fs a) (h : paths a = .error e) (plan : Plan)
    (count : Nat) : stage.run fs P = (.error e, fs, (stage.records a plan count).take 1) := by
  have hplan := plan_of_paths_error ha h
  have hrun : stage.run fs P = _ := run_of_plan_error (congrArg Prod.fst hplan)
  rw [hrun, hplan, records_eq]
  rfl

theorem run_of_file_error (ha : stage.Holds fs a) (hpaths : paths a = .ok plan)
    (h : (compressFile fs plan P).1 = .error e) (count : Nat) :
    stage.run fs P = (.error e, (compressFile fs plan P).2.1,
      (stage.records a plan count).take 2) := by
  have hplan := plan_of_paths ha hpaths
  have hrun : stage.run fs P = _ := run_of_plan (congrArg Prod.fst hplan)
  rw [hrun, hplan, h, compressFile_silent h, records_eq]
  rfl

theorem run_of_file (ha : stage.Holds fs a) (hpaths : paths a = .ok plan)
    (h : (compressFile fs plan P).1 = .ok ()) :
    ∃ after count, stage.run fs P = (.ok plan, after, stage.records a plan count) ∧
      (P.Faithful → Counted P fs after plan count) := by
  rcases hfile : compressFile fs plan P with ⟨answer, after, log⟩
  obtain rfl : answer = .ok () := by simpa [hfile] using h
  obtain ⟨count, rfl, hcounted⟩ := compressFile_counted hfile
  have hplan := plan_of_paths ha hpaths
  have hrun : stage.run fs P = _ := run_of_plan (congrArg Prod.fst hplan)
  refine ⟨after, count, ?_, hcounted⟩
  rw [hrun, hplan, hfile, records_eq]
  rfl

/-- A run fails with a part of the records, or it ends with all three. -/
theorem run_records (stage : Stage) (fs : FileSystem) (P : Platform) :
    (∃ e after a plan count n, n < 3 ∧
      stage.run fs P = (.error e, after, (stage.records a plan count).take n)) ∨
    ∃ a plan after count, stage.Holds fs a ∧ paths a = .ok plan ∧
      stage.run fs P = (.ok plan, after, stage.records a plan count) ∧
      (P.Faithful → Counted P fs after plan count) := by
  let nowhere : Plan := ⟨⟨[]⟩, ⟨[]⟩⟩
  by_cases hdocument : ∃ a, stage.Holds fs a
  case neg =>
    obtain ⟨e, hrun⟩ := run_of_no_document (not_exists.mp hdocument)
    exact .inl ⟨e, fs, {}, nowhere, 0, 0, by decide, hrun⟩
  case pos =>
    obtain ⟨a, ha⟩ := hdocument
    cases hpaths : paths a with
    | error e =>
      exact .inl ⟨e, fs, a, nowhere, 0, 1, by decide, run_of_paths_error ha hpaths nowhere 0⟩
    | ok plan =>
      cases hfile : (compressFile fs plan P).1 with
      | error e =>
        exact .inl ⟨e, _, a, plan, 0, 2, by decide, run_of_file_error ha hpaths hfile 0⟩
      | ok done =>
        obtain ⟨after, count, hrun, hcounted⟩ := run_of_file ha hpaths hfile
        exact .inr ⟨a, plan, after, count, ha, hpaths, hrun, hcounted⟩

/-- The log of a run is an initial segment of the three records.  Which one, says how far the run
has got: it is empty without a document, one record when there is no plan, two when the file is not
compressed, and all three exactly when the run succeeds.  The count in the last one is the number
of octets that the source has given, which are the contents of the target if that is a file. -/
theorem run_log (hP : P.Faithful) {answer : Except StageError Plan} {log : List Record}
    (h : stage.run fs P = (answer, after, log)) :
    (∃ a plan count, log <+: stage.records a plan count) ∧
      ((∀ a, ¬ stage.Holds fs a) → log = []) ∧
      (∀ a e, stage.Holds fs a → paths a = .error e →
        ∀ plan count, log = (stage.records a plan count).take 1) ∧
      (∀ a plan e, stage.Holds fs a → paths a = .ok plan →
        (compressFile fs plan P).1 = .error e →
        ∀ count, log = (stage.records a plan count).take 2) ∧
      ((∃ plan, answer = .ok plan) ↔ log.length = 3) ∧
      ∀ plan, answer = .ok plan → ∃ a count, stage.Holds fs a ∧ paths a = .ok plan ∧
        log = stage.records a plan count ∧ Counted P fs after plan count := by
  have hundecoded (hnone : ∀ a, ¬ stage.Holds fs a) : log = [] := by
    obtain ⟨e, hrun⟩ : ∃ e, stage.run fs P = (.error e, fs, []) := run_of_no_document hnone
    rw [hrun] at h
    exact (congrArg (·.2.2) h).symm
  have hunresolved (a : Arguments) (e : StageError) (ha : stage.Holds fs a)
      (hpaths : paths a = .error e) (plan : Plan) (count : Nat) :
      log = (stage.records a plan count).take 1 := by
    rw [run_of_paths_error ha hpaths plan count] at h
    exact (congrArg (·.2.2) h).symm
  have hfailed (a : Arguments) (plan : Plan) (e : StageError) (ha : stage.Holds fs a)
      (hpaths : paths a = .ok plan) (hfile : (compressFile fs plan P).1 = .error e)
      (count : Nat) : log = (stage.records a plan count).take 2 := by
    rw [run_of_file_error ha hpaths hfile count] at h
    exact (congrArg (·.2.2) h).symm
  obtain ⟨e, after', a, plan, count, n, hn, hrun⟩ | ⟨a, plan, after', count, ha, hpaths, hrun,
    hcounted⟩ := run_records stage fs P
  all_goals
    rw [hrun, Prod.mk.injEq, Prod.mk.injEq] at h
    obtain ⟨rfl, rfl, rfl⟩ := h
  · have hlength : ((stage.records a plan count).take n).length ≠ 3 := by
      rw [List.length_take]
      exact Nat.ne_of_lt (Nat.lt_of_le_of_lt (Nat.min_le_left n _) hn)
    refine ⟨⟨a, plan, count, List.take_prefix n _⟩, hundecoded, hunresolved, hfailed, ?_, ?_⟩
    · constructor
      · rintro ⟨_, ⟨⟩⟩
      · intro hthree
        exact absurd hthree hlength
    · rintro _ ⟨⟩
  · refine ⟨⟨a, plan, count, List.prefix_refl _⟩, hundecoded, hunresolved, hfailed,
      ⟨fun _ => rfl, fun _ => ⟨plan, rfl⟩⟩, ?_⟩
    rintro plan' ⟨⟩
    exact ⟨a, count, ha, hpaths, rfl, hcounted hP⟩

/-- A run that comes to its end, one whose staged file is missing, and one without a document. -/
theorem run_log_sample :
    (∃ after a log, (⟨.ofString "a"⟩ : Stage).run (sample [(name "a", 4)]) =
        (.ok samplePlan, after, log) ∧
      log = (⟨.ofString "a"⟩ : Stage).records a samplePlan 3) ∧
    (∃ e after log, (⟨.ofString "a"⟩ : Stage).run (sample []) = (.error e, after, log) ∧
      log.length = 2) ∧
    ∃ e after log, (⟨.ofString "z"⟩ : Stage).run (sample []) = (.error e, after, log) ∧
      log = [] := by
  refine ⟨?_, ?_, ?_⟩
  · obtain ⟨after, log, hrun⟩ := run_sample
    obtain ⟨a, count, _, _, hlog, source, made, target, held, hsource, hcreate, hheld, _, rfl, _⟩ :=
      (run_log Platform.default_faithful hrun).2.2.2.2.2 samplePlan rfl
    obtain rfl : source = 4 := by
      have hplace : (sample [(name "a", 4)]).locate samplePlan.source = .ok 4 := by rfl
      exact Except.ok.inj (hsource.symm.trans hplace)
    have hmade : (sample [(name "a", 4)]).create samplePlan.target =
        .ok ((sample [(name "a", 4)]).addNode 3 (name "z") (.file [])) := by rfl
    rw [hmade, Except.ok.injEq] at hcreate
    obtain rfl : made = _ := (congrArg Prod.fst hcreate).symm
    obtain rfl : held = [1, 2, 3] := (Except.ok.inj hheld).symm
    exact ⟨after, a, log, hrun, hlog⟩
  · have hfile : compressFile (sample []) samplePlan =
        (.error (.io .openingSource (.ofString "i/a") .noEntry), sample [], []) := by rfl
    have hplan := plan_sample []
    rw [plan_eq_bind, bind_ok_iff] at hplan
    obtain ⟨a, ha, hpaths⟩ := hplan
    have hrun : (⟨.ofString "a"⟩ : Stage).run (sample []) =
        (.error (.io .openingSource (.ofString "i/a") .noEntry), sample [],
          ((⟨.ofString "a"⟩ : Stage).plan (sample [])).2 ++ []) := by
      rw [run_of_plan (plan_sample []), hfile]
      rfl
    have hlog := (run_log Platform.default_faithful hrun).2.2.2.1 a samplePlan _
      (loadArguments_ok_iff.mp ha) hpaths (congrArg Prod.fst hfile) 0
    exact ⟨_, _, _, hrun, congrArg List.length hlog⟩
  · have hread : (sample []).read (.ofString "z") = .error .noEntry := by rfl
    have hnone (a : Arguments) : ¬ (⟨.ofString "z"⟩ : Stage).Holds (sample []) a := by
      rintro ⟨document, hdocument, _⟩
      exact nomatch hread.symm.trans hdocument
    obtain ⟨e, hrun⟩ : ∃ e, (⟨.ofString "z"⟩ : Stage).run (sample []) = (.error e, _, []) :=
      run_of_no_document hnone
    exact ⟨e, _, _, hrun, (run_log Platform.default_faithful hrun).2.1 hnone⟩

end Stage

end GzipStage
