import GzipStage.CommandLine.Invoke
import GzipStage.Proofs.CommandLine.Words
import GzipStage.Proofs.Stage.Run

/-! A call of the program as a front end of the stage. -/
namespace GzipStage

open FileSystem Log

/-! ### What is logged -/

namespace Stage

variable {fs : FileSystem} {stage : Stage} {P : Platform} {r : Record}

theorem planFor_level {document : Except IoError Bytes}
    (hr : r ∈ (stage.planFor document).2) : r.level = .debug := by
  have hdecoded : ∀ r ∈ (decodeArguments stage.argumentsPath document).2, r.level = .debug := by
    unfold decodeArguments
    intro r hr
    split at hr
    · cases hr
    · split at hr
      · cases hr
      · rw [List.mem_singleton.mp hr]
        rfl
  unfold planFor at hr
  split at hr
  next hdecode =>
    rw [hdecode] at hdecoded
    exact hdecoded r hr
  next hdecode =>
    rw [hdecode] at hdecoded
    split at hr
    · exact hdecoded r hr
    · rcases List.mem_append.mp hr with hr | hr
      · exact hdecoded r hr
      · rw [List.mem_singleton.mp hr]
        rfl

theorem compressFile_level {plan : Plan} (hr : r ∈ (compressFile fs plan P).2.2) :
    r.level = .debug := by
  have hcompressed := compressFile_compressed fs plan P
  generalize (compressFile fs plan P).1 = answer, (compressFile fs plan P).2.1 = after,
    (compressFile fs plan P).2.2 = log at hr hcompressed
  cases hcompressed with
  | done written =>
    rw [List.mem_singleton.mp hr]
    rfl
  | unopened | uncreated | unread | unwritten => cases hr

theorem run_level (hr : r ∈ (stage.run fs P).2.2) : r.level = .debug := by
  cases hplan : (stage.plan fs).1 with
  | error e =>
    rw [run_of_plan_error hplan] at hr
    exact planFor_level hr
  | ok plan =>
    rw [run_of_plan hplan] at hr
    rcases List.mem_append.mp hr with hr | hr
    · exact planFor_level hr
    · exact compressFile_level hr

end Stage

/-! ### What is told -/

namespace CommandLine

theorem shows_level (detail : Nat) (r : Record) :
    Filter.shows ⟨[⟨none, detail⟩], none⟩ r = decide (r.level.detail ≤ detail) := by
  unfold Filter.shows
  simp [Filter.detailFor, Filter.Directive.matches]

theorem shown_level {detail : Nat} {log : List Record}
    (h : ∀ r ∈ log, detail < r.level.detail) : shown ⟨[⟨none, detail⟩], none⟩ log = "" := by
  have hnone : log.filter (Filter.shows ⟨[⟨none, detail⟩], none⟩) = [] := by
    apply List.filter_eq_nil_iff.mpr
    intro r hr
    rw [shows_level, decide_eq_true_iff, not_le]
    exact h r hr
  unfold shown
  rw [hnone]
  rfl

theorem parse_defaultSpec : Filter.parse defaultSpec = (⟨[⟨none, 2⟩], none⟩, []) := by rfl

/-- All records of a run are below the warnings that a call without a filter shows. -/
theorem shown_runLog (stage : Stage) (fs : FileSystem) (P : Platform) :
    shown ⟨[⟨none, 2⟩], none⟩ (runLog (stage.run fs P).1 (stage.run fs P).2.2) = "" := by
  apply shown_level
  intro r hr
  cases hresult : (stage.run fs P).1 with
  | error e =>
    rw [hresult] at hr
    rw [Stage.run_level hr]
    decide
  | ok plan =>
    rw [hresult] at hr
    rcases List.mem_append.mp hr with hr | hr
    · rw [Stage.run_level hr]
      decide
    · rw [List.mem_singleton.mp hr]
      exact Nat.lt_succ_self 2

theorem renderChain_eq (text : String) (causes : List String) :
    renderChain text causes =
      text ++ String.join (causes.map ("\n  caused by: " ++ ·)) := by
  unfold renderChain
  induction causes generalizing text with
  | nil => simp
  | cons cause causes ih =>
    rw [List.foldl_cons, ih, List.map_cons, String.join_cons, String.append_assoc,
      String.append_assoc, String.append_assoc]

variable {words : List Bytes} {p : Path}

theorem invoke_eq (words : List Bytes) (spec : Option String) (fs : FileSystem) (P : Platform) :
    invoke words spec fs P =
      let (filter, complaints) := Filter.parse (spec.getD defaultSpec)
      match stageOf words P with
      | .error reply => ⟨reply.exit, reply.stdout, warnings complaints ++ reply.stderr, fs⟩
      | .ok stage =>
        let (result, after, log) := stage.run fs P
        ⟨exitCode result, "", warnings complaints ++ report filter result log, after⟩ := by
  unfold invoke call
  cases stageOf words P with
  | error reply => rfl
  | ok stage => rfl

theorem invoke_of_gives (hwords : Gives words p) (spec : Option String) (fs : FileSystem)
    (P : Platform) :
    invoke words spec fs P =
      ⟨exitCode ((⟨p⟩ : Stage).run fs P).1, "",
        warnings (Filter.parse (spec.getD defaultSpec)).2 ++
          report (Filter.parse (spec.getD defaultSpec)).1 ((⟨p⟩ : Stage).run fs P).1
            ((⟨p⟩ : Stage).run fs P).2.2,
        ((⟨p⟩ : Stage).run fs P).2.1⟩ := by
  have hstage : stageOf words P = .ok ⟨p⟩ := by
    unfold stageOf
    rw [parse_run_iff.mpr hwords]
    rfl
  rw [invoke_eq, hstage]

theorem stderr_of_gives (hwords : Gives words p) (fs : FileSystem) (P : Platform) :
    (invoke words none fs P).stderr =
      match ((⟨p⟩ : Stage).run fs P).1 with
      | .ok _ => ""
      | .error e => e.chain ++ "\n" := by
  rw [invoke_of_gives hwords]
  dsimp only [Option.getD_none]
  unfold report
  rw [parse_defaultSpec, shown_runLog, String.empty_append]
  exact String.empty_append

/-- The words that ask for a run on a path are those that give it.  Whatever the files and the
filter, such a call does to the files what the stage does, and its exit code tells whether the
stage fails.  Without a filter it tells nothing but the error of the stage, with one line for each
cause. -/
theorem invoke_runs (words : List Bytes) (p : Path) :
    (Gives words p ↔ parse words = .ok (.run (some p))) ∧
      (Gives words p → ∀ (spec : Option String) (fs : FileSystem) (P : Platform),
        (invoke words spec fs P).stdout = "" ∧
        (invoke words spec fs P).fileSystem = ((⟨p⟩ : Stage).run fs P).2.1 ∧
        (∀ plan, ((⟨p⟩ : Stage).run fs P).1 = .ok plan →
          (invoke words spec fs P).exit = 0 ∧
          (spec = none → (invoke words spec fs P).stderr = "")) ∧
        ∀ e, ((⟨p⟩ : Stage).run fs P).1 = .error e →
          (invoke words spec fs P).exit = 1 ∧
          (spec = none → (invoke words spec fs P).stderr = e.chain ++ "\n") ∧
          e.chain = e.message ++ String.join (e.causes.map ("\n  caused by: " ++ ·))) := by
  refine ⟨parse_run_iff.symm, ?_⟩
  intro hwords spec fs P
  refine ⟨?_, ?_, ?_, ?_⟩
  · rw [invoke_of_gives hwords]
  · rw [invoke_of_gives hwords]
  · intro plan hplan
    constructor
    · rw [invoke_of_gives hwords, hplan]
      rfl
    · rintro rfl
      rw [stderr_of_gives hwords, hplan]
  · intro e he
    refine ⟨?_, ?_, renderChain_eq e.message e.causes⟩
    · rw [invoke_of_gives hwords, he]
      rfl
    · rintro rfl
      rw [stderr_of_gives hwords, he]

/-- A missing staged file is told with its cause below it.  One that is there is compressed, however
much is logged. -/
theorem invoke_runs_sample :
    (invoke [argumentsWord, Utf8.encode "a"] none (Stage.sample [])).stderr =
        "Error opening source 'i/a': No such file or directory (os error 2). " ++
          "The content id in inputs.file.data.files has no file in the staging directory.\n" ++
          "  caused by: No such file or directory (os error 2)\n" ∧
      (invoke [argumentsWord ++ Octet.equals :: Utf8.encode "a"] (some "trace")
        (Stage.sample [(name "a", 4)])).exit = 0 := by
  have hplain : ¬ IsOption (Path.ofString "a").bytes := by
    rintro ⟨b, rest, heq⟩
    cases heq
  have hapart : Gives [argumentsWord, Utf8.encode "a"] (.ofString "a") :=
    ⟨by decide, [], .inl rfl, .inr ⟨rfl, hplain⟩⟩
  have hjoined : Gives [argumentsWord ++ Octet.equals :: Utf8.encode "a"] (.ofString "a") :=
    ⟨by decide, [], .inl rfl, .inl rfl⟩
  constructor
  · have hfile : compressFile (Stage.sample []) Stage.samplePlan =
        (.error (.io .openingSource (.ofString "i/a") .noEntry), Stage.sample [], []) := by rfl
    have hrun : (⟨.ofString "a"⟩ : Stage).run (Stage.sample []) = _ :=
      Stage.run_of_plan (Stage.plan_sample [])
    rw [hfile] at hrun
    obtain ⟨-, -, -, herror⟩ := (invoke_runs _ _).2 hapart none (Stage.sample []) {}
    rw [hrun] at herror
    rw [(herror _ rfl).2.1 rfl]
    decide +kernel
  · obtain ⟨after, log, hrun⟩ := Stage.run_sample
    obtain ⟨-, -, hok, -⟩ :=
      (invoke_runs _ _).2 hjoined (some "trace") (Stage.sample [(name "a", 4)]) {}
    exact (hok Stage.samplePlan (by rw [hrun])).1

end CommandLine

end GzipStage
