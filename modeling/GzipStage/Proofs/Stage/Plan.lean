import GzipStage.Proofs.Arguments.Resolve
import GzipStage.Proofs.Stage.Run

/-! What stands in the way of a plan: seven reasons, of which the first that applies is told. -/
namespace GzipStage

namespace Arguments

theorem nonEmpty_failsBy (text field : String) :
    FailsBy (nonEmpty text field) [fun e => text = "" ∧ e = .missingField field] := by
  unfold nonEmpty
  split
  case isTrue h =>
    simpa only [String.isEmpty_iff.mp h, true_and] using
      FailsBy.error (StageError.missingField field) []
  case isFalse h => exact (FailsBy.ok text).skip fun e he => h (String.isEmpty_iff.mpr he.1)

theorem joinUnder_failsBy (base name field : String) :
    FailsBy (joinUnder base name field)
      [fun e => Nameless name ∧ e = .missingField field] := by
  simp only [← dropSlashes_eq_empty]
  exact (nonEmpty_failsBy _ field).bind fun relative _ => .ok _

/-- What is wrong with arguments, in the order in which it counts. -/
def rows : List (Arguments → StageError → Prop) :=
  [fun a e => a.input.files.length ≠ 1 ∧ ∃ listing : String,
      Json.Laid (.object a.input.files) listing.toList ∧ e = .resolution listing,
    fun a e => a.input.path = "" ∧ e = .missingField "inputs.file.path",
    fun a e => (∃ id value, a.input.files = [(id, value)] ∧ Nameless id) ∧
      e = .missingField "inputs.file.data.files",
    fun a e => a.tree = "" ∧ e = .missingField "tree",
    fun a e => Nameless a.filename ∧ e = .missingField "options.filename"]

theorem resolveSource_failsBy (a : Arguments) :
    FailsBy a.resolveSource ((rows.take 3).map (· a)) := by
  simp only [rows, List.take_succ_cons, List.take_zero, List.map_cons, List.map_nil]
  by_cases hlength : a.input.files.length = 1
  · obtain ⟨⟨id, value⟩, hfiles⟩ := List.length_eq_one_iff.mp hlength
    have hone : (∃ id' value', a.input.files = [(id', value')] ∧ Nameless id') ↔ Nameless id := by
      simp [hfiles]
    rw [resolveSource_one hfiles]
    refine FailsBy.skip ?_ fun e he => he.1 hlength
    simp only [hone]
    exact (nonEmpty_failsBy _ _).bind fun directory _ => joinUnder_failsBy _ _ _
  · have hlisting (e : StageError) : (∃ listing : String,
        Json.Laid (.object a.input.files) listing.toList ∧ e = .resolution listing) ↔
          e = .resolution a.input.files.render := by
      simp only [← Json.Members.serialize_ok_iff, Json.Members.serialize_eq, Except.ok.injEq,
        exists_eq_left']
    rw [resolveSource_many hlength]
    simpa only [hlength, ne_eq, not_false_eq_true, true_and, hlisting] using FailsBy.error _ _

theorem resolveTarget_failsBy (a : Arguments) :
    FailsBy a.resolveTarget ((rows.drop 3).map (· a)) := by
  simp only [rows, List.drop_succ_cons, List.drop_zero, List.map_cons, List.map_nil]
  exact (nonEmpty_failsBy a.tree "tree").bind fun tree _ => joinUnder_failsBy _ _ _

end Arguments

namespace Stage

variable {stage : Stage} {fs : FileSystem} {plan : Plan}

/-- The document that the stage reads holds these arguments. -/
def Holds (stage : Stage) (fs : FileSystem) (a : Arguments) : Prop :=
  ∃ document, fs.read stage.argumentsPath = .ok document ∧ Arguments.decode document = .ok a

/-- What stands in the way of a plan, in the order in which it counts. -/
def obstacles (stage : Stage) (fs : FileSystem) : List (StageError → Prop) :=
  [fun e => ∃ cause, fs.read stage.argumentsPath = .error cause ∧
      e = .io .readingArguments stage.argumentsPath cause,
    fun e => ∃ document error, fs.read stage.argumentsPath = .ok document ∧
      Arguments.decode document = .error error ∧ e = .decode error] ++
  Arguments.rows.map fun row e => ∃ a, stage.Holds fs a ∧ row a e

theorem loadArguments_ok_iff {a : Arguments} :
    (loadArguments fs stage.argumentsPath).1 = .ok a ↔ stage.Holds fs a := by
  unfold loadArguments decodeArguments Holds
  cases hread : fs.read stage.argumentsPath with
  | error cause => simp
  | ok document => cases hdecode : Arguments.decode document <;> simp [hdecode]

theorem loadArguments_failsBy :
    FailsBy (loadArguments fs stage.argumentsPath).1 ((stage.obstacles fs).take 2) := by
  unfold loadArguments decodeArguments
  simp only [obstacles, List.cons_append, List.take_succ_cons, List.take_zero]
  cases hread : fs.read stage.argumentsPath with
  | error cause =>
    simpa [eq_comm] using
      FailsBy.error (StageError.io .readingArguments stage.argumentsPath cause) _
  | ok document =>
    refine FailsBy.skip ?_ (by simp)
    dsimp only
    cases hdecode : Arguments.decode document with
    | error error => simpa [hdecode, eq_comm] using FailsBy.error (StageError.decode error) []
    | ok a =>
      refine (FailsBy.ok a).skip fun e he => ?_
      obtain ⟨_, error, hsame, herror, _⟩ := he
      obtain rfl := Except.ok.inj hsame
      simp [hdecode] at herror

theorem paths_failsBy (a : Arguments) : FailsBy (paths a) (Arguments.rows.map (· a)) := by
  have hrows : Arguments.rows.map (· a) =
      (Arguments.rows.take 3).map (· a) ++ ((Arguments.rows.drop 3).map (· a) ++ []) := by
    rw [List.append_nil, ← List.map_append, List.take_append_drop]
  rw [hrows]
  exact a.resolveSource_failsBy.bind fun source _ =>
    a.resolveTarget_failsBy.bind fun target _ => .ok _

/-- Planning is loading the arguments and working out the two paths. -/
theorem plan_eq_bind :
    (stage.plan fs).1 = (loadArguments fs stage.argumentsPath).1 >>= paths := by
  unfold Stage.plan planFor loadArguments
  cases decodeArguments stage.argumentsPath (fs.read stage.argumentsPath) with
  | mk loaded log =>
    cases loaded with
    | error e => rfl
    | ok a =>
      change _ = paths a
      cases hpaths : paths a <;> simp [hpaths]

theorem plan_failsBy : FailsBy (stage.plan fs).1 (stage.obstacles fs) := by
  rw [plan_eq_bind]
  refine loadArguments_failsBy.bind fun a hload => ?_
  -- Only one value of arguments is held, so the later rows are about this one.
  have hholds (b : Arguments) : stage.Holds fs b ↔ a = b := by
    rw [← loadArguments_ok_iff, hload, Except.ok.injEq]
  simp only [hholds, exists_eq_left']
  exact paths_failsBy a

theorem paths_ok_iff {a : Arguments} :
    paths a = .ok plan ↔ a.resolveSource = .ok plan.source ∧ a.resolveTarget = .ok plan.target := by
  obtain ⟨source, target⟩ := plan
  unfold paths
  cases a.resolveSource with
  | error e => simp [bind, Except.bind]
  | ok found =>
    cases a.resolveTarget with
    | error e => simp [bind, Except.bind]
    | ok made => simp [bind, Except.bind, pure, Except.pure]

/-- Planning fails with the first obstacle that applies and with nothing else.  There is a plan
exactly when none applies, and then it is made of the two paths.  The listing of the staged files
never fails to be printed, and a single one never lacks a name. -/
theorem plan_decided (stage : Stage) (fs : FileSystem) :
    (∀ e, (stage.plan fs).1 = .error e ↔ Decides (stage.obstacles fs) e) ∧
      ((∃ plan, (stage.plan fs).1 = .ok plan) ↔ ∀ row ∈ stage.obstacles fs, ∀ e, ¬ row e) ∧
      (∀ plan, (stage.plan fs).1 = .ok plan ↔ ∃ a, stage.Holds fs a ∧
        a.resolveSource = .ok plan.source ∧ a.resolveTarget = .ok plan.target) ∧
      ∀ a : Arguments, (∃ listing, a.input.files.serialize = .ok listing) ∧
        (a.input.files.length = 1 → ∃ id, a.input.files.names.head? = some id) ∧
        ∀ error, a.resolveSource ≠ .error (.decode error) := by
  refine ⟨plan_failsBy, plan_failsBy.ok_iff, ?_, ?_⟩
  · intro plan
    simp only [← loadArguments_ok_iff, ← paths_ok_iff, plan_eq_bind]
    cases (loadArguments fs stage.argumentsPath).1 with
    | error e => simp [bind, Except.bind]
    | ok a => simp [bind, Except.bind]
  · intro a
    refine ⟨⟨_, Json.Members.serialize_eq _⟩, ?_, ?_⟩
    · intro hlength
      obtain ⟨⟨id, value⟩, hfiles⟩ := List.length_eq_one_iff.mp hlength
      rw [hfiles]
      exact ⟨id, rfl⟩
    · intro error h
      exact Arguments.resolveSource_error h

end Stage

end GzipStage
