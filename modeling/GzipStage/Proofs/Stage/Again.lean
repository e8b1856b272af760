import GzipStage.Proofs.Stage.Run

/-! Running the stage a second time. -/
namespace GzipStage

open FileSystem Gzip

variable {fs after : FileSystem} {plan : Plan} {log : List Log.Record} {P : Platform}

/-- Compressing a file depends on what its paths lead to when the target has been emptied. -/
theorem compressFile_congr {source : Inode} (hsource : fs.locate plan.source = .ok source)
    (hsource' : after.locate plan.source = .ok source)
    (htarget : after.create plan.target = fs.create plan.target)
    (h : (compressFile fs plan P).1 = .ok ()) :
    compressFile after plan P = compressFile fs plan P := by
  rw [compressFile_eq, hsource] at h
  rw [compressFile_eq, compressFile_eq, hsource', hsource, htarget]
  cases hcreate : fs.create plan.target with
  | error e =>
    rw [hcreate] at h
    cases h
  | ok made => rfl

/-- Compressing the same file into the same target again changes nothing. -/
theorem compressFile_again (h : compressFile fs plan P = (.ok (), after, log)) :
    compressFile after plan P = (.ok (), after, log) := by
  cases compressed_of_eq h with
  | @done source found count written hsource hfound _ _ =>
    by_cases hholds : fs.Holds found
    · have hchanged := put_changedOnlyAt hfound written
      rw [compressFile_congr hsource (hchanged.locate hsource) (create_put hfound hholds _)
        (by rw [h]), h]
    · -- a device takes everything and keeps nothing
      rw [put_eq_self hholds] at h ⊢
      exact h

namespace Stage

variable {stage : Stage}

theorem plan_congr (h : after.read stage.argumentsPath = fs.read stage.argumentsPath) :
    stage.plan after = stage.plan fs := by
  unfold Stage.plan
  rw [h]

/-- After a run that has succeeded another one succeeds with the same plan and the same log, and
leaves every node as it is, unless the target is the document. -/
theorem run_again (h : stage.run fs P = (.ok plan, after, log))
    (hdocument : after.locate plan.target ≠ after.locate stage.argumentsPath) :
    stage.run after P = (.ok plan, after, log) := by
  obtain ⟨hplan, more, hfile, rfl⟩ := run_ok_iff.mp h
  obtain ⟨document, hread⟩ := read_of_plan hplan
  obtain ⟨i, node, hlocate, hnode⟩ := node_of_read hread
  have hchanged := (compressed_of_eq hfile).changedOnlyAt
  have hother : fs.locate plan.target ≠ .ok i := by
    intro hsame
    apply hdocument
    rw [hchanged.locate hsame, hchanged.locate hlocate]
  have hsame : stage.plan after = stage.plan fs := plan_congr (hchanged.read hlocate hnode hother)
  rw [run_ok_iff, hsame]
  exact ⟨hplan, more, compressFile_again hfile, rfl⟩

/-- The staged file of three octets is compressed twice. -/
theorem run_again_sample : ∃ after log,
    (⟨.ofString "a"⟩ : Stage).run (sample [(name "a", 4)]) = (.ok samplePlan, after, log) ∧
      (⟨.ofString "a"⟩ : Stage).run after = (.ok samplePlan, after, log) := by
  have hfound : (sample [(name "a", 4)]).resolve .create samplePlan.target =
      .ok (.entry 3 (name "z")) := by rfl
  have hdocument : (sample [(name "a", 4)]).locate (.ofString "a") = .ok 1 := by rfl
  obtain ⟨after, log, hrun⟩ := run_sample
  obtain ⟨-, more, hfile, -⟩ := run_ok_iff.mp hrun
  refine ⟨after, log, hrun, run_again hrun ?_⟩
  cases compressed_of_eq hfile with
  | @done _ found _ written _ hfound' _ _ =>
    obtain rfl : .entry 3 (name "z") = found := by simpa [hfound] using hfound'
    have hkept := (put_changedOnlyAt hfound written).locate hdocument
    have hmade := locate_put hfound written
    intro hsame
    have hboth := hmade.symm.trans (hsame.trans hkept)
    exact absurd (Except.ok.inj hboth) (by decide)

end Stage

end GzipStage
