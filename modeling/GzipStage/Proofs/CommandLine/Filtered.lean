import GzipStage.Proofs.CommandLine.Apart
import GzipStage.Proofs.Log.Levels
import GzipStage.Proofs.Stage.Progress

/-! A filter selects among the records of a run and changes nothing else. -/
namespace GzipStage.CommandLine

open FileSystem Log

/-- The records of a run of the stage, with the one that tells its success. -/
def logged (stage : Stage) (fs : FileSystem) (P : Platform) : List Record :=
  runLog (stage.run fs P).1 (stage.run fs P).2.2

def selected (spec : String) (records : List Record) : List Record :=
  records.filter (Filter.parse spec).1.shows

variable {words : List Bytes} {spec wider : String} {detail more : Nat} {records : List Record}
  {stage : Stage} {fs : FileSystem} {P : Platform}

/-! ### What there is to show -/

theorem runLog_level {result : Except StageError Plan} {r : Record}
    (hr : r ∈ runLog result (stage.run fs P).2.2) : 2 < r.level.detail ∧ r.level.detail ≤ 4 := by
  cases result with
  | error e =>
    rw [Stage.run_level hr]
    decide
  | ok plan =>
    rcases List.mem_append.mp hr with hr | hr
    · rw [Stage.run_level hr]
      decide
    · rw [List.mem_singleton.mp hr]
      exact ⟨Nat.lt_succ_self 2, Nat.le_succ 3⟩

theorem logged_targets (stage : Stage) (fs : FileSystem) (P : Platform) :
    (logged stage fs P).map Record.target <+:
      ["staticgzip::arguments", "staticgzip::stage", "staticgzip::compress", "staticgzip"] := by
  unfold logged
  obtain ⟨e, after, a, plan, count, n, hn, hrun⟩ | ⟨a, plan, after, count, -, -, hrun, -⟩ :=
    stage.run_records fs P
  · rw [hrun]
    dsimp only [runLog]
    rw [List.map_take]
    apply (List.take_prefix n _).trans
    exact List.prefix_append _ ["staticgzip"]
  · rw [hrun]
    exact List.prefix_refl _

theorem logged_nodup (stage : Stage) (fs : FileSystem) (P : Platform) :
    (logged stage fs P).Nodup := by
  -- every record comes from a part of the program of its own
  apply List.Nodup.of_map Record.target
  apply (logged_targets stage fs P).sublist.nodup
  decide

/-! ### What is shown -/

theorem invoke_stderr (h : stageOf words P = .ok stage) (spec : String) (fs : FileSystem) :
    (invoke words (some spec) fs P).stderr =
      warnings (Filter.parse spec).2 ++
        String.join ((selected spec (logged stage fs P)).map Record.line) ++
        match (stage.run fs P).1 with
        | .ok _ => ""
        | .error e => e.chain ++ "\n" := by
  rw [invoke_eq, h, String.append_assoc]
  rfl

theorem selected_level (h : Filter.detail? spec.toList = some detail) :
    selected spec records = records.filter (·.level.detail ≤ detail) := by
  unfold selected
  rw [Filter.parse_level h]
  apply List.filter_congr
  intro r _
  exact shows_level detail r

theorem selected_mono (h : Filter.detail? spec.toList = some detail)
    (hmore : Filter.detail? wider.toList = some more) (hle : detail ≤ more) :
    (selected spec records).Sublist (selected wider records) := by
  rw [selected_level h, selected_level hmore]
  apply List.monotone_filter_right records
  intro r hr
  rw [decide_eq_true_eq] at hr ⊢
  exact hr.trans hle

theorem selected_eq_nil (h : Filter.detail? spec.toList = some detail) (hlow : detail ≤ 2) :
    selected spec (logged stage fs P) = [] := by
  rw [selected_level h]
  apply List.filter_eq_nil_iff.mpr
  intro r hr
  have hlevel := (runLog_level hr).1
  rw [decide_eq_true_eq]
  omega

theorem selected_eq_self (h : Filter.detail? spec.toList = some detail) (hhigh : 4 ≤ detail) :
    selected spec (logged stage fs P) = logged stage fs P := by
  rw [selected_level h]
  apply List.filter_eq_self.mpr
  intro r hr
  exact decide_eq_true ((runLog_level hr).2.trans hhigh)

theorem selected_info (h : Filter.detail? spec.toList = some 3) :
    selected spec (logged stage fs P) =
      match (stage.run fs P).1 with
      | .ok plan => [wroteRecord plan]
      | .error _ => [] := by
  have hstage : (stage.run fs P).2.2.filter (·.level.detail ≤ 3) = [] := by
    apply List.filter_eq_nil_iff.mpr
    intro r hr
    rw [Stage.run_level hr]
    decide
  rw [selected_level h]
  unfold logged
  cases (stage.run fs P).1 with
  | error e => exact hstage
  | ok plan =>
    dsimp only [runLog]
    rw [List.filter_append, hstage, List.nil_append]
    rfl

/-- Standard error of a run is made of warnings that the filter alone gives rise to, the lines of
some of the records, each at most once and in order, and the error exactly if the run fails.  All
records are shown under `trace`, and without warnings.  A level shows what every lower one shows:
up to `warn` that is nothing, under `info` the record of a success, from `debug` on it is all. -/
theorem invoke_selects (h : stageOf words P = .ok stage) (fs : FileSystem) :
    (logged stage fs P).Nodup ∧
      (∀ spec : String, (invoke words (some spec) fs P).stderr =
          warnings (Filter.parse spec).2 ++
            String.join ((selected spec (logged stage fs P)).map Record.line) ++
            (match (stage.run fs P).1 with
            | .ok _ => ""
            | .error e => e.chain ++ "\n") ∧
        (selected spec (logged stage fs P)).Sublist (logged stage fs P)) ∧
      ((invoke words (some "trace") fs P).stderr =
        String.join ((logged stage fs P).map Record.line) ++
          match (stage.run fs P).1 with
          | .ok _ => ""
          | .error e => e.chain ++ "\n") ∧
      (∀ spec wider detail more, Filter.detail? spec.toList = some detail →
        Filter.detail? wider.toList = some more → detail ≤ more →
          (selected spec (logged stage fs P)).Sublist (selected wider (logged stage fs P))) ∧
      (∀ spec ∈ ["off", "error", "warn"], selected spec (logged stage fs P) = []) ∧
      (selected "info" (logged stage fs P) =
        match (stage.run fs P).1 with
        | .ok plan => [wroteRecord plan]
        | .error _ => []) ∧
      ∀ spec ∈ ["debug", "trace"], selected spec (logged stage fs P) = logged stage fs P := by
  have hlow : ∀ spec ∈ ["off", "error", "warn"],
      (Filter.detail? spec.toList).any (· ≤ 2) = true := by decide
  have hhigh : ∀ spec ∈ ["debug", "trace"],
      (Filter.detail? spec.toList).any (4 ≤ ·) = true := by decide
  have htrace : Filter.detail? "trace".toList = some 5 := by decide
  refine ⟨logged_nodup stage fs P, ?_, ?_, ?_, ?_, ?_, ?_⟩
  · intro spec
    exact ⟨invoke_stderr h spec fs, List.filter_sublist⟩
  · rw [invoke_stderr h, selected_eq_self htrace (by decide), Filter.parse_level htrace]
    rfl
  · intro spec wider detail more
    exact selected_mono
  · intro spec hspec
    obtain ⟨detail, hdetail, hle⟩ := (Option.any_eq_true _ _).mp (hlow spec hspec)
    exact selected_eq_nil hdetail (of_decide_eq_true hle)
  · apply selected_info
    decide
  · intro spec hspec
    obtain ⟨detail, hdetail, hle⟩ := (Option.any_eq_true _ _).mp (hhigh spec hspec)
    exact selected_eq_self hdetail (of_decide_eq_true hle)

/-- Under `info`, a run that succeeds tells its one record, and one that fails its error. -/
theorem invoke_selects_sample :
    (invoke [argumentsWord, Utf8.encode "a"] (some "info") (Stage.sample [(name "a", 4)])).stderr =
        "[INFO  staticgzip] wrote t/z\n" ∧
      (invoke [argumentsWord, Utf8.encode "a"] (some "info") (Stage.sample [])).stderr =
        (invoke [argumentsWord, Utf8.encode "a"] (some "off") (Stage.sample [])).stderr := by
  have hstage : stageOf [argumentsWord, Utf8.encode "a"] = .ok ⟨.ofString "a"⟩ := by rfl
  have hquiet : warnings (Filter.parse "info").2 = warnings (Filter.parse "off").2 := by rfl
  constructor
  · obtain ⟨after, log, hrun⟩ := Stage.run_sample
    obtain ⟨-, hstderr, -, -, -, hinfo, -⟩ := invoke_selects hstage (Stage.sample [(name "a", 4)])
    rw [(hstderr "info").1, hinfo, hrun]
    dsimp only
    decide +kernel
  · have hfile : compressFile (Stage.sample []) Stage.samplePlan =
        (.error (.io .openingSource (.ofString "i/a") .noEntry), Stage.sample [], []) := by rfl
    have hrun : (⟨.ofString "a"⟩ : Stage).run (Stage.sample []) = _ :=
      Stage.run_of_plan (Stage.plan_sample [])
    rw [hfile] at hrun
    obtain ⟨-, hstderr, -, -, hsilent, hinfo, -⟩ := invoke_selects hstage (Stage.sample [])
    rw [(hstderr "info").1, (hstderr "off").1, hinfo, hsilent "off" (by decide), hrun, hquiet]
    rfl

end GzipStage.CommandLine
