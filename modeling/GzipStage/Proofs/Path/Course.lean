import GzipStage.Path
import Mathlib.Data.List.Infix

/-! Where a path leads by its text alone: how far it climbs, and where it goes down from there. -/
namespace GzipStage.Path

/-! ### The names of a joined path -/

variable {xs names : List Bytes} {name bs cs : Bytes}

theorem namesOnto_slash (bs cs : Bytes) :
    namesOnto names name (bs ++ Octet.slash :: cs) =
      namesOnto (namesOnto names name bs) [] cs := by
  induction bs generalizing names name with
  | nil => rfl
  | cons b bs ih =>
    rw [List.cons_append, namesOnto, namesOnto]
    split
    · exact ih
    · exact ih

theorem namesOnto_append (cs : Bytes) :
    namesOnto (xs ++ names) name cs = namesOnto xs name cs ++ names := by
  induction cs generalizing xs name with
  | nil =>
    rw [namesOnto, namesOnto]
    split <;> rfl
  | cons b bs ih =>
    rw [namesOnto, namesOnto]
    split
    · rw [← ih]
      split <;> rfl
    · exact ih

theorem names_slash (bs cs : Bytes) :
    (Path.mk (bs ++ Octet.slash :: cs)).names = (Path.mk bs).names ++ (Path.mk cs).names := by
  have happend : namesOnto ([] ++ namesOnto [] [] bs) [] cs =
      namesOnto [] [] cs ++ namesOnto [] [] bs := namesOnto_append cs
  rw [List.nil_append] at happend
  rw [Path.names, namesOnto_slash, happend, List.reverse_append]
  rfl

/-- A relative name below a directory adds its names to those of the directory. -/
theorem names_join {base name : Path} (hbase : base.bytes ≠ []) (hname : name.isAbsolute = false) :
    (base.join name).names = base.names ++ name.names ∧
      (base.join name).isAbsolute = base.isAbsolute := by
  obtain ⟨bytes⟩ := base
  rw [join, if_neg (ne_true_of_eq_false hname)]
  obtain ⟨bs, b, rfl⟩ := List.eq_nil_or_concat' bytes |>.resolve_left hbase
  have habsolute (b : UInt8) (rest : Bytes) :
      (Path.mk (bs ++ b :: rest)).isAbsolute = (Path.mk (bs ++ [b])).isAbsolute := by
    cases bs <;> rfl
  by_cases hb : b = Octet.slash
  · subst hb
    have hends : ((bs ++ [Octet.slash] = []) ||
        ((bs ++ [Octet.slash]).getLast? = some Octet.slash)) = true := by simp
    rw [if_pos hends]
    simp only [List.append_assoc, List.singleton_append]
    refine ⟨?_, habsolute _ _⟩
    rw [names_slash, names_slash, List.append_assoc]
    rfl
  · have hends : ¬ ((bs ++ [b] = []) || ((bs ++ [b]).getLast? = some Octet.slash)) = true := by
      simpa using hb
    rw [if_neg hends]
    refine ⟨names_slash _ _, ?_⟩
    simp only [List.append_assoc, List.singleton_append]
    exact habsolute _ _

/-! ### Following names -/

/-- From the root or from a starting directory, up by some directories and then down. -/
structure Course where
  rooted : Bool
  climbs : Nat
  names : List Bytes
  deriving DecidableEq

namespace Course

def start (rooted : Bool) : Course := ⟨rooted, 0, []⟩

def step (c : Course) (name : Bytes) : Course :=
  if name = here then c
  else if name = above then
    if c.names ≠ [] then { c with names := c.names.dropLast }
    else if c.rooted then c
    else { c with climbs := c.climbs + 1 }
  else { c with names := c.names ++ [name] }

/-- One course leads to a place strictly below that of another. -/
def Below (c d : Course) : Prop :=
  c.rooted = d.rooted ∧
    (c.climbs = d.climbs ∧ d.names <+: c.names ∧ c.names ≠ d.names ∨
      c.climbs < d.climbs ∧ d.names = [])

instance (c d : Course) : Decidable (c.Below d) := inferInstanceAs (Decidable (_ ∧ (_ ∨ _)))

def climb (c : Course) (n : Nat) : Course where
  rooted := c.rooted
  climbs := if c.rooted then c.climbs else c.climbs + (n - c.names.length)
  names := c.names.take (c.names.length - n)

/-- From the end of one course along another that starts there. -/
def follow (c d : Course) : Course :=
  { c.climb d.climbs with names := (c.climb d.climbs).names ++ d.names }

variable {c d : Course}

theorem climb_succ (c : Course) (n : Nat) : c.climb (n + 1) = (c.climb n).step above := by
  have hnot : above ≠ here := by decide
  rw [step, if_neg hnot, if_pos rfl]
  by_cases hn : n < c.names.length
  · have hdown : (c.climb n).names ≠ [] := by
      simp only [climb, ne_eq, List.take_eq_nil_iff]
      rintro (hzero | hempty)
      · omega
      · simp [hempty] at hn
    have hnames : (c.climb n).names.dropLast = c.names.take (c.names.length - (n + 1)) := by
      rw [climb, List.dropLast_eq_take, List.take_take, List.length_take]
      congr 1
      omega
    have hclimbs : n + 1 - c.names.length = n - c.names.length := by omega
    rw [if_pos hdown, hnames]
    simp only [climb, hclimbs]
  · have hup : c.names.length - n = 0 ∧ c.names.length - (n + 1) = 0 := by omega
    have hnames : (c.climb n).names = [] := by rw [climb, hup.1, List.take_zero]
    rw [if_neg (not_not.mpr hnames)]
    split
    case isTrue hrooted =>
      have hrooted : c.rooted = true := hrooted
      simp only [climb, hup, hrooted, if_true]
    case isFalse hrooted =>
      have hrooted : ¬ c.rooted = true := hrooted
      simp only [climb, hup, if_neg hrooted]
      congr 1
      omega

@[simp] theorem step_rooted (c : Course) (name : Bytes) : (c.step name).rooted = c.rooted := by
  unfold step
  split
  · rfl
  split
  · split
    · rfl
    split <;> rfl
  · rfl

theorem foldl_step_rooted (c : Course) (names : List Bytes) :
    (names.foldl step c).rooted = c.rooted := by
  induction names generalizing c with
  | nil => rfl
  | cons name names ih => rw [List.foldl_cons, ih, step_rooted]

theorem follow_of_names_eq_nil (hd : d.names = []) : c.follow d = c.climb d.climbs := by
  rw [follow, hd, List.append_nil]

theorem follow_step (hd : d.rooted = false) (name : Bytes) :
    c.follow (d.step name) = (c.follow d).step name := by
  by_cases hhere : name = here
  · rw [step, step, if_pos hhere, if_pos hhere]
  by_cases habove : name = above
  · subst habove
    by_cases hdown : d.names = []
    · have hstep : d.step above = { d with climbs := d.climbs + 1 } := by
        rw [step, if_neg hhere, if_pos rfl, if_neg (not_not.mpr hdown), if_neg (by simp [hd])]
      rw [hstep, follow_of_names_eq_nil hdown, ← climb_succ]
      exact follow_of_names_eq_nil hdown
    · have hmore : (c.follow d).names ≠ [] := List.append_ne_nil_of_right_ne_nil _ hdown
      rw [step, step, if_neg hhere, if_pos rfl, if_pos hdown, if_neg hhere, if_pos rfl,
        if_pos hmore]
      simp only [follow, List.dropLast_append_of_ne_nil hdown]
  · rw [step, step, if_neg hhere, if_neg habove, if_neg hhere, if_neg habove]
    simp only [follow, List.append_assoc]

/-- Names are followed from the end of a course as they are followed on their own. -/
theorem foldl_step (c : Course) (names : List Bytes) :
    names.foldl step c = c.follow (names.foldl step (start false)) := by
  induction names using List.reverseRecOn with
  | nil => simp [follow, climb, start]
  | append_singleton names name ih =>
    rw [List.foldl_append, List.foldl_append, ih]
    exact (follow_step (foldl_step_rooted _ names) name).symm

/-- After climbing out of some directories a course goes down through them again, and further. -/
def Returns (c d : Course) : Prop :=
  (c.rooted = true ∨ d.climbs ≤ c.names.length) ∧
    ∃ more, more ≠ [] ∧ d.names = c.names.drop (c.names.length - d.climbs) ++ more

theorem follow_below_iff : (c.follow d).Below c ↔ c.Returns d := by
  have hnames (more : List Bytes) : (c.follow d).names = c.names ++ more ↔
      d.names = c.names.drop (c.names.length - d.climbs) ++ more := by
    -- The names that stay after climbing stand in front on both sides.
    have hsplit := List.take_append_drop (c.names.length - d.climbs) c.names
    conv_lhs => rw [← hsplit, List.append_assoc]
    simp only [follow, climb, List.append_cancel_left_eq]
  have hclimbs : (c.follow d).climbs = c.climbs ↔ c.rooted = true ∨ d.climbs ≤ c.names.length := by
    simp only [follow, climb]
    split
    case isTrue hrooted => simp [hrooted]
    case isFalse hrooted => simp [hrooted, Nat.sub_eq_zero_iff_le]
  have hnotless : ¬ (c.follow d).climbs < c.climbs := by
    simp only [follow, climb]
    split <;> omega
  have hproper : c.names <+: (c.follow d).names ∧ (c.follow d).names ≠ c.names ↔
      ∃ more, more ≠ [] ∧ (c.follow d).names = c.names ++ more := by
    constructor
    · rintro ⟨⟨more, hmore⟩, hne⟩
      refine ⟨more, ?_, hmore.symm⟩
      rintro rfl
      exact hne (by rw [← hmore, List.append_nil])
    · rintro ⟨more, hne, hmore⟩
      refine ⟨⟨more, hmore.symm⟩, fun hsame => hne ?_⟩
      rwa [hsame, List.self_eq_append_right] at hmore
  have hrooted : (c.follow d).rooted = c.rooted := rfl
  rw [Below, and_iff_right hrooted, or_iff_left fun h => hnotless h.1, hclimbs, hproper, Returns]
  simp only [hnames]

end Course

/-- Where a path leads when `.` and `..` are resolved in its text. -/
def course (p : Path) : Course := p.names.foldl Course.step (.start p.isAbsolute)

theorem course_join {base name : Path} (hbase : base.bytes ≠ []) (hname : name.isAbsolute = false) :
    (base.join name).course = base.course.follow name.course := by
  obtain ⟨hnames, habsolute⟩ := names_join hbase hname
  rw [course, hnames, habsolute, List.foldl_append, Course.foldl_step, course, course, hname]

end GzipStage.Path
