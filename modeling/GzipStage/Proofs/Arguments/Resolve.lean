import GzipStage.Arguments.Resolve
import GzipStage.Proofs.Json.Layout
import GzipStage.Proofs.Path.Course
import GzipStage.Proofs.Steps
import GzipStage.Proofs.Text.Utf8
import Mathlib.Data.List.TakeWhile

/-! Where resolved paths lead. -/
namespace GzipStage.Arguments

open Json GzipStage.Path

variable {a : Arguments} {p : Path} {base name field : String}

/-- A name that is empty or made of slashes alone. -/
def Nameless (name : String) : Prop := ∀ c ∈ name.toList, c = '/'

theorem dropSlashes_eq_empty (name : String) : dropSlashes name = "" ↔ Nameless name := by
  rw [dropSlashes, String.ofList_eq_empty_iff, List.dropWhile_eq_nil_iff]
  exact forall₂_congr fun c _ => beq_iff_eq

theorem nonEmpty_ok_iff {text found : String} :
    nonEmpty text field = .ok found ↔ text ≠ "" ∧ text = found := by
  unfold nonEmpty
  split
  case isTrue h => simp [String.isEmpty_iff.mp h]
  case isFalse h => simp [mt String.isEmpty_iff.mpr h]

theorem joinUnder_ok_iff :
    joinUnder base name field = .ok p ↔
      ¬ Nameless name ∧ p = (ofString base).join (ofString (dropSlashes name)) := by
  rw [← dropSlashes_eq_empty, joinUnder, bind_ok_iff]
  simp only [nonEmpty_ok_iff]
  constructor
  · rintro ⟨_, ⟨hname, rfl⟩, hp⟩
    exact ⟨hname, (Except.ok.inj hp).symm⟩
  · rintro ⟨hname, rfl⟩
    exact ⟨_, ⟨hname, rfl⟩, rfl⟩

/-- The artifact is found when neither the tree nor the name is missing. -/
theorem resolveTarget_ok_iff :
    a.resolveTarget = .ok p ↔ a.tree ≠ "" ∧ ¬ Nameless a.filename ∧
      p = (ofString a.tree).join (ofString (dropSlashes a.filename)) := by
  rw [resolveTarget, bind_ok_iff]
  simp only [nonEmpty_ok_iff, joinUnder_ok_iff]
  constructor
  · rintro ⟨_, ⟨htree, rfl⟩, hname, hp⟩
    exact ⟨htree, hname, hp⟩
  · rintro ⟨htree, hname, hp⟩
    exact ⟨_, ⟨htree, rfl⟩, hname, hp⟩

theorem resolveSource_many (h : a.input.files.length ≠ 1) :
    a.resolveSource = .error (.resolution a.input.files.render) := by
  unfold resolveSource
  dsimp only
  rw [if_pos h, Members.serialize_eq]

theorem resolveSource_one {id : String} {value : Value} (h : a.input.files = [(id, value)]) :
    a.resolveSource = (nonEmpty a.input.path "inputs.file.path" >>= fun directory =>
      joinUnder directory id "inputs.file.data.files") := by
  unfold resolveSource
  rw [h]
  rfl

theorem resolveSource_ok_iff :
    a.resolveSource = .ok p ↔ ∃ id value, a.input.files = [(id, value)] ∧ a.input.path ≠ "" ∧
      ¬ Nameless id ∧ p = (ofString a.input.path).join (ofString (dropSlashes id)) := by
  by_cases hlength : a.input.files.length = 1
  · obtain ⟨⟨id, value⟩, hfiles⟩ := List.length_eq_one_iff.mp hlength
    rw [resolveSource_one hfiles, bind_ok_iff]
    simp only [hfiles, nonEmpty_ok_iff, joinUnder_ok_iff]
    constructor
    · rintro ⟨_, ⟨hpath, rfl⟩, hname, hp⟩
      exact ⟨id, value, rfl, hpath, hname, hp⟩
    · rintro ⟨_, _, hsame, hpath, hname, hp⟩
      cases hsame
      exact ⟨_, ⟨hpath, rfl⟩, hname, hp⟩
  · rw [resolveSource_many hlength]
    constructor
    · rintro ⟨⟩
    · rintro ⟨id, value, hfiles, _⟩
      rw [hfiles] at hlength
      exact absurd rfl hlength

/-- Where a name leads from the directory that it is joined to. -/
def nameCourse (name : String) : Course := (ofString (dropSlashes name)).course

/-- A name that neither climbs above its directory nor leads back to it. -/
def Descends (name : String) : Prop := (nameCourse name).climbs = 0 ∧ (nameCourse name).names ≠ []

instance (name : String) : Decidable (Descends name) := inferInstanceAs (Decidable (_ ∧ _))

theorem ofString_bytes_ne_nil {text : String} (h : text ≠ "") : (ofString text).bytes ≠ [] := by
  rw [ofString, Utf8.encode, ne_eq, List.flatMap_eq_nil_iff]
  intro hall
  obtain ⟨c, cs, hcs⟩ := List.exists_cons_of_ne_nil (mt String.toList_eq_nil_iff.mp h)
  exact Utf8.encodeChar_ne_nil c (hall c (hcs ▸ List.mem_cons_self))

/-- What is left of a name without its leading slashes is relative. -/
theorem dropSlashes_relative (name : String) :
    (ofString (dropSlashes name)).isAbsolute = false := by
  rw [ofString, isAbsolute, Utf8.encode, dropSlashes, String.toList_ofList]
  cases hrest : name.toList.dropWhile (· == '/') with
  | nil => rfl
  | cons c cs =>
    have hc : c ≠ '/' := by
      have := List.head?_dropWhile_not (· == '/') name.toList
      simpa [hrest] using this
    obtain ⟨b, bs, hb⟩ := List.exists_cons_of_ne_nil (Utf8.encodeChar_ne_nil c)
    have hslash : b ≠ Octet.slash := fun h => hc <|
      Utf8.eq_of_mem_encodeChar (show '/'.toNat < 0x80 by decide) (hb ▸ h ▸ List.mem_cons_self)
    rw [List.flatMap_cons, hb, List.cons_append, List.head?_cons]
    exact decide_eq_false fun h => hslash (Option.some.inj h)

theorem joinUnder_below_iff (hbase : base ≠ "") (name : String) :
    ((ofString base).join (ofString (dropSlashes name))).course.Below (ofString base).course ↔
      (ofString base).course.Returns (nameCourse name) := by
  rw [course_join (ofString_bytes_ne_nil hbase) (dropSlashes_relative name)]
  exact Course.follow_below_iff

theorem returns_of_descends {c : Course} (h : Descends name) : c.Returns (nameCourse name) := by
  obtain ⟨hclimbs, hnames⟩ := h
  refine ⟨.inr (hclimbs ▸ Nat.zero_le _), _, hnames, ?_⟩
  rw [hclimbs, Nat.sub_zero, List.drop_length, List.nil_append]

/-- A resolved path leads strictly below its directory exactly when its name, after climbing out of
some directories, goes down through them again and then further.  A name that stays below its
start does. -/
theorem resolved_below_iff (a : Arguments) (p : Path) :
    (a.resolveTarget = .ok p →
      (p.course.Below (ofString a.tree).course ↔
        (ofString a.tree).course.Returns (nameCourse a.filename)) ∧
      (Descends a.filename → p.course.Below (ofString a.tree).course)) ∧
    (a.resolveSource = .ok p → ∃ id value, a.input.files = [(id, value)] ∧
      (p.course.Below (ofString a.input.path).course ↔
        (ofString a.input.path).course.Returns (nameCourse id)) ∧
      (Descends id → p.course.Below (ofString a.input.path).course)) := by
  constructor
  · intro h
    obtain ⟨htree, _, rfl⟩ := resolveTarget_ok_iff.mp h
    have hbelow := joinUnder_below_iff htree a.filename
    exact ⟨hbelow, fun hname => hbelow.mpr (returns_of_descends hname)⟩
  · intro h
    obtain ⟨id, value, hfiles, hpath, _, rfl⟩ := resolveSource_ok_iff.mp h
    have hbelow := joinUnder_below_iff hpath id
    exact ⟨id, value, hfiles, hbelow, fun hname => hbelow.mpr (returns_of_descends hname)⟩

/-- A tree that climbs and a rooted name with `.` and `..` in it. -/
def winding : Arguments where
  tree := "../out/"
  input := { path := "/in", files := [("//a/../b", .null)] }
  filename := "/./x/../y//z"

theorem resolved_below_iff_winding :
    (∃ p, winding.resolveTarget = .ok p ∧ p.course.Below (ofString winding.tree).course) ∧
      ∃ p, winding.resolveSource = .ok p ∧ p.course.Below (ofString winding.input.path).course := by
  have htarget : winding.resolveTarget = .ok (ofString "../out/./x/../y//z") := by rfl
  have hsource : winding.resolveSource = .ok (ofString "/in/a/../b") := by rfl
  obtain ⟨id, value, hfiles, _, hdown⟩ := (resolved_below_iff winding _).2 hsource
  cases hfiles
  exact ⟨⟨_, htarget, ((resolved_below_iff winding _).1 htarget).2 (by decide +kernel)⟩,
    ⟨_, hsource, hdown (by decide +kernel)⟩⟩

/-- A document whose artifact and whose staged file are both named `..`. -/
def climbingDocument : Bytes :=
  Utf8.encode ("\x7b\"tree\":\"/out\",\"inputs\":\x7b\"file\":\x7b\"path\":\"/in\"," ++
    "\"data\":\x7b\"files\":\x7b\"..\":0\x7d\x7d\x7d\x7d,\"options\":\x7b\"filename\":\"..\"\x7d\x7d")

/-- Resolved paths need not lead below their directories. -/
theorem not_resolved_below : ∃ a p q, decode climbingDocument = .ok a ∧
    a.resolveTarget = .ok p ∧ ¬ p.course.Below (ofString a.tree).course ∧
    a.resolveSource = .ok q ∧ ¬ q.course.Below (ofString a.input.path).course := by
  have hpaths : (decode climbingDocument).toOption.map
      (fun a => (a.tree, a.input.path, a.resolveTarget.toOption, a.resolveSource.toOption)) =
        some ("/out", "/in", some (ofString "/out/.."), some (ofString "/in/..")) := by
    decide +kernel
  obtain ⟨a, hdecode, hvalues⟩ := Option.map_eq_some_iff.mp hpaths
  simp only [Prod.mk.injEq] at hvalues
  obtain ⟨htree, hpath, htarget, hsource⟩ := hvalues
  refine ⟨a, _, _, eq_ok_of_toOption hdecode, eq_ok_of_toOption htarget, ?_,
    eq_ok_of_toOption hsource, ?_⟩
  · rw [htree]
    decide
  · rw [hpath]
    decide

end GzipStage.Arguments
