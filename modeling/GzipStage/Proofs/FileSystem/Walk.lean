import GzipStage.FileSystem.Walk
import Mathlib.Tactic

/-! Where paths lead when a file system grows. -/
namespace GzipStage.FileSystem

/-- Neither a directory nor a link: nothing that a walk passes through. -/
def Plain (fs : FileSystem) (i : Inode) : Prop :=
  (∀ parent entries, fs.nodes[i]? ≠ some (.directory parent entries)) ∧
    ∀ target, fs.nodes[i]? ≠ some (.link target)

theorem plain_of_file {fs : FileSystem} {i : Inode} {contents : Bytes}
    (h : fs.nodes[i]? = some (.file contents)) : fs.Plain i := by simp [Plain, h]

/-- Everything that walks pass through in `fs` is there in `after`. -/
structure Extends (fs after : FileSystem) : Prop where
  working : after.working = fs.working
  directory : ∀ (i parent : Inode) (entries : List (Bytes × Inode)),
    fs.nodes[i]? = some (.directory parent entries) →
    ∃ entries' : List (Bytes × Inode), after.nodes[i]? = some (.directory parent entries') ∧
      ∀ name j, entries.lookup name = some j → entries'.lookup name = some j
  link : ∀ (i : Inode) (target : Bytes), fs.nodes[i]? = some (.link target) →
    after.nodes[i]? = some (.link target)
  plain : ∀ i, fs.Plain i → after.Plain i

theorem Extends.refl (fs : FileSystem) : fs.Extends fs where
  working := rfl
  directory _ _ entries h := ⟨entries, h, fun _ _ => id⟩
  link _ _ := id
  plain _ := id

/-- What is found in one file system, as it is found in an extension: a node stays where it is,
and a name for a file to write may stand for a file by then. -/
inductive Becomes (after : FileSystem) (purpose : Purpose) : Found → Found → Prop
  | node (i : Inode) : Becomes after purpose (.node i) (.node i)
  | entry {dir i : Inode} {name : Bytes} (hcreate : purpose = .create)
      (hlookup : after.lookup? dir name = .ok (some i)) (hplain : after.Plain i) :
      Becomes after purpose (.entry dir name) (.node i)

def Purpose.Allows (purpose purpose' : Purpose) : Prop :=
  purpose ≠ .place ∧ (purpose' = purpose ∨ purpose = .create ∧ purpose' = .follow)

theorem Purpose.Allows.not_place {purpose purpose' : Purpose} (h : purpose.Allows purpose') :
    purpose' ≠ .place := by
  obtain ⟨hplace, rfl | ⟨_, rfl⟩⟩ := h
  · exact hplace
  · decide

theorem Purpose.Allows.create {purpose purpose' : Purpose} (h : purpose.Allows purpose')
    (hcreate : purpose' = .create) : purpose = .create := by
  obtain ⟨_, rfl | ⟨rfl, _⟩⟩ := h
  · exact hcreate
  · rfl

theorem Purpose.Allows.keep {purpose purpose' : Purpose} (h : purpose.Allows purpose') :
    purpose' = .keep ↔ purpose = .keep := by
  obtain ⟨_, rfl | ⟨rfl, rfl⟩⟩ := h
  · exact Iff.rfl
  · decide

def arrive (fs : FileSystem) (purpose : Purpose) (jump : Jump) (dir : Inode) (slash : Bool)
    (i : Inode) : Except IoError Found :=
  match fs.nodes[i]? with
  | some (.link target) =>
    if purpose = .keep && !slash then .ok (.node i)
    else jump (startOf dir ⟨target⟩) (Path.names ⟨target⟩) (slash || Path.endsWithSlash ⟨target⟩)
  | some (.directory _ _) => .ok (.node i)
  | _ => if slash then .error .notDirectory else .ok (.node i)

theorem lastStep_of_name (fs : FileSystem) {purpose : Purpose} {name : Bytes} {slash : Bool}
    (hhere : name ≠ Path.here) (habove : name ≠ Path.above) (hplace : purpose ≠ .place)
    (hcreate : ¬ (purpose = .create ∧ slash = true)) (jump : Jump) (dir : Inode) :
    fs.lastStep purpose jump dir name slash = (do
      match ← fs.lookup? dir name with
      | none => .ok (.entry dir name)
      | some i => fs.arrive purpose jump dir slash i) := by
  rw [lastStep, if_neg hhere, if_neg habove, if_neg hplace, if_neg (by simpa using hcreate)]
  rfl

theorem Plain.arrive {fs : FileSystem} {i : Inode} (h : fs.Plain i) (purpose : Purpose)
    (jump : Jump) (dir : Inode) (slash : Bool) : fs.arrive purpose jump dir slash i =
      if slash then .error .notDirectory else .ok (.node i) := by
  unfold FileSystem.arrive
  split
  next target hlink => exact (h.2 _ hlink).elim
  next parent entries hdir => exact (h.1 _ _ hdir).elim
  next => rfl

theorem lookup?_ok {fs : FileSystem} {dir : Inode} {name : Bytes} {found : Option Inode}
    (h : fs.lookup? dir name = .ok found) : ∃ parent entries,
      fs.nodes[dir]? = some (.directory parent entries) ∧ name.length ≤ maxName ∧
        entries.lookup name = found := by
  unfold lookup? at h
  split at h
  next parent entries hdir =>
    split at h
    · simp at h
    next hlen => exact ⟨parent, entries, hdir, by omega, by simpa using h⟩
  next => simp at h

namespace Extends

variable {fs after : FileSystem} (h : fs.Extends after)
include h

theorem node_cases (i : Inode) :
    (∃ parent entries entries', fs.nodes[i]? = some (.directory parent entries) ∧
      after.nodes[i]? = some (.directory parent entries')) ∨
    (∃ target, fs.nodes[i]? = some (.link target) ∧ after.nodes[i]? = some (.link target)) ∨
    (fs.Plain i ∧ after.Plain i) := by
  by_cases hdir : ∃ parent entries, fs.nodes[i]? = some (.directory parent entries)
  · obtain ⟨parent, entries, hi⟩ := hdir
    obtain ⟨entries', hafter, _⟩ := h.directory i parent entries hi
    exact .inl ⟨parent, entries, entries', hi, hafter⟩
  by_cases hlink : ∃ target, fs.nodes[i]? = some (.link target)
  · obtain ⟨target, hi⟩ := hlink
    exact .inr (.inl ⟨target, hi, h.link i target hi⟩)
  have hplain : fs.Plain i := ⟨fun parent entries hi => hdir ⟨parent, entries, hi⟩,
    fun target hi => hlink ⟨target, hi⟩⟩
  exact .inr (.inr ⟨hplain, h.plain i hplain⟩)

theorem parentOf (i : Inode) : after.parentOf i = fs.parentOf i := by
  have hplain (fs : FileSystem) (hi : fs.Plain i) : fs.parentOf i = root := by
    unfold FileSystem.parentOf
    split
    next parent entries hdir => exact (hi.1 _ _ hdir).elim
    next => rfl
  obtain ⟨parent, entries, entries', hi, hafter⟩ | ⟨target, hi, hafter⟩ | ⟨hi, hafter⟩ :=
    h.node_cases i
  · simp only [FileSystem.parentOf, hi, hafter]
  · simp only [FileSystem.parentOf, hi, hafter]
  · rw [hplain fs hi, hplain after hafter]

theorem lookup? {dir i : Inode} {name : Bytes} (hl : fs.lookup? dir name = .ok (some i)) :
    after.lookup? dir name = .ok (some i) := by
  obtain ⟨parent, entries, hdir, hlen, hfound⟩ := lookup?_ok hl
  obtain ⟨entries', hafter, hkept⟩ := h.directory dir parent entries hdir
  simp only [FileSystem.lookup?, hafter, hkept name i hfound]
  rw [if_neg (by omega)]

theorem arrive {purpose purpose' : Purpose} (hp : purpose.Allows purpose')
    {jump jump' : Jump} (hjump : ∀ dir names slash r r', jump dir names slash = .ok r →
      Becomes after purpose r r' → jump' dir names slash = .ok r')
    {dir i : Inode} {slash : Bool} {r r' : Found}
    (hr : fs.arrive purpose jump dir slash i = .ok r) (hbecomes : Becomes after purpose r r') :
    after.arrive purpose' jump' dir slash i = .ok r' := by
  obtain ⟨parent, entries, entries', hi, hafter⟩ | ⟨target, hi, hafter⟩ | ⟨hi, hafter⟩ :=
    h.node_cases i
  · simp only [FileSystem.arrive, hi, hafter, Except.ok.injEq] at hr ⊢
    subst hr
    cases hbecomes
    rfl
  · simp only [FileSystem.arrive, hi, hafter, hp.keep] at hr ⊢
    split at hr
    next hkeep =>
      rw [if_pos hkeep]
      cases hr
      cases hbecomes
      rfl
    next hkeep =>
      rw [if_neg hkeep]
      exact hjump _ _ _ _ _ hr hbecomes
  · rw [hi.arrive] at hr
    rw [hafter.arrive]
    split at hr
    · cases hr
    next hslash =>
      rw [if_neg hslash]
      cases hr
      cases hbecomes
      rfl

/-- A last name that is found is found in the extension, provided that links lead on alike. -/
theorem lastStep {purpose purpose' : Purpose} (hp : purpose.Allows purpose')
    {jump jump' : Jump} (hjump : ∀ dir names slash r r', jump dir names slash = .ok r →
      Becomes after purpose r r' → jump' dir names slash = .ok r')
    {dir : Inode} {name : Bytes} {slash : Bool} {r r' : Found}
    (hr : fs.lastStep purpose jump dir name slash = .ok r) (hbecomes : Becomes after purpose r r') :
    after.lastStep purpose' jump' dir name slash = .ok r' := by
  by_cases hhere : name = Path.here
  · simp only [FileSystem.lastStep, if_pos hhere, Except.ok.injEq] at hr ⊢
    subst hr
    cases hbecomes
    rfl
  by_cases habove : name = Path.above
  · simp only [FileSystem.lastStep, if_neg hhere, if_pos habove, Except.ok.injEq, h.parentOf]
      at hr ⊢
    subst hr
    cases hbecomes
    rfl
  by_cases hcreate : purpose = .create ∧ slash = true
  · simp [FileSystem.lastStep, hhere, habove, hcreate] at hr
  have hcreate' : ¬ (purpose' = .create ∧ slash = true) :=
    fun hboth => hcreate ⟨hp.create hboth.1, hboth.2⟩
  rw [lastStep_of_name fs hhere habove hp.1 hcreate] at hr
  rw [lastStep_of_name after hhere habove hp.not_place hcreate']
  match hlookup : fs.lookup? dir name with
  | .error e => simp [hlookup, bind, Except.bind] at hr
  | .ok none =>
    -- nothing has the name, so a file to write is meant, and now it is there
    simp only [hlookup, bind, Except.bind, Except.ok.injEq] at hr
    subst hr
    cases hbecomes with
    | entry hpurpose hlookup' hplain =>
      have hslash : ¬ slash = true := fun hslash => hcreate ⟨hpurpose, hslash⟩
      simp only [hlookup', bind, Except.bind]
      rw [hplain.arrive, if_neg hslash]
  | .ok (some i) =>
    simp only [hlookup, h.lookup? hlookup, bind, Except.bind] at hr ⊢
    exact h.arrive hp hjump hr hbecomes

/-- What the names of a path lead to, they lead to in the extension. -/
theorem steps {purpose purpose' : Purpose} (hp : purpose.Allows purpose')
    {jump jump' : Jump} (hjump : ∀ dir names slash r r', jump dir names slash = .ok r →
      Becomes after purpose r r' → jump' dir names slash = .ok r')
    {names : List Bytes} {dir : Inode} {slash : Bool} {r r' : Found}
    (hr : fs.steps purpose jump slash dir names = .ok r) (hbecomes : Becomes after purpose r r') :
    after.steps purpose' jump' slash dir names = .ok r' := by
  induction names generalizing dir with
  | nil =>
    simp only [FileSystem.steps, Except.ok.injEq] at hr ⊢
    subst hr
    cases hbecomes
    rfl
  | cons name names ih =>
    cases names with
    | nil => exact h.lastStep hp hjump hr hbecomes
    | cons next names =>
      simp only [FileSystem.steps] at hr ⊢
      split
      next hhere =>
        rw [if_pos hhere] at hr
        exact ih hr
      next hhere =>
        rw [if_neg hhere] at hr
        split
        next habove =>
          rw [if_pos habove] at hr
          rw [h.parentOf]
          exact ih hr
        next habove =>
          rw [if_neg habove] at hr
          match hlookup : fs.lookup? dir name with
          | .error e => simp [hlookup, bind, Except.bind] at hr
          | .ok none => simp [hlookup, bind, Except.bind] at hr
          | .ok (some i) =>
            simp only [hlookup, h.lookup? hlookup, bind, Except.bind] at hr ⊢
            obtain ⟨parent, entries, entries', hi, hafter⟩ | ⟨target, hi, hafter⟩ | ⟨hi, _⟩ :=
              h.node_cases i
            · simp only [hi, hafter] at hr ⊢
              exact ih hr
            · simp only [hi, hafter] at hr ⊢
              exact hjump _ _ _ _ _ hr hbecomes
            · split at hr
              next parent entries hdir => exact (hi.1 _ _ hdir).elim
              next target hlink => exact (hi.2 _ hlink).elim
              next => cases hr

theorem walk {purpose purpose' : Purpose} (hp : purpose.Allows purpose') {links : Nat}
    {dir : Inode} {names : List Bytes} {slash : Bool} {r r' : Found}
    (hr : fs.walk purpose links dir names slash = .ok r) (hbecomes : Becomes after purpose r r') :
    after.walk purpose' links dir names slash = .ok r' := by
  induction links generalizing dir names slash r r' with
  | zero => exact h.steps hp (fun _ _ _ _ _ hjump => by simp at hjump) hr hbecomes
  | succ links ih => exact h.steps hp (fun _ _ _ _ _ hjump hb => ih hjump hb) hr hbecomes

theorem resolve {purpose purpose' : Purpose} (hp : purpose.Allows purpose') {p : Path}
    {r r' : Found} (hr : fs.resolve purpose p = .ok r) (hbecomes : Becomes after purpose r r') :
    after.resolve purpose' p = .ok r' := by
  unfold FileSystem.resolve at hr ⊢
  split at hr
  · simp at hr
  next hnul =>
    split at hr
    · simp at hr
    next hempty =>
      split at hr
      · simp at hr
      next hlen =>
        rw [if_neg hnul, if_neg hempty, if_neg hlen, h.working]
        exact h.walk hp hr hbecomes

end Extends

section Entries

variable {fs : FileSystem} {purpose : Purpose} (hp : purpose ≠ .place)
include hp

theorem lookup?_of_lastStep {jump : Jump}
    (hjump : ∀ dir names slash dir' name', jump dir names slash = .ok (.entry dir' name') →
      fs.lookup? dir' name' = .ok none)
    {dir dir' : Inode} {name name' : Bytes} {slash : Bool}
    (hr : fs.lastStep purpose jump dir name slash = .ok (.entry dir' name')) :
    fs.lookup? dir' name' = .ok none := by
  unfold lastStep at hr
  split at hr
  · simp at hr
  split at hr
  · simp at hr
  split at hr
  · simp at hr
  match hlookup : fs.lookup? dir name with
  | .error e => simp [hlookup, bind, Except.bind] at hr
  | .ok none =>
    simp only [hlookup, bind, Except.bind, Except.ok.injEq, Found.entry.injEq] at hr
    rw [← hr.1, ← hr.2, hlookup]
  | .ok (some i) =>
    simp only [hlookup, bind, Except.bind] at hr
    split at hr
    · split at hr
      · simp at hr
      · exact hjump _ _ _ _ _ hr
    · simp at hr
    · split at hr <;> simp at hr

theorem lookup?_of_steps {jump : Jump}
    (hjump : ∀ dir names slash dir' name', jump dir names slash = .ok (.entry dir' name') →
      fs.lookup? dir' name' = .ok none)
    {names : List Bytes} {dir dir' : Inode} {name' : Bytes} {slash : Bool}
    (hr : fs.steps purpose jump slash dir names = .ok (.entry dir' name')) :
    fs.lookup? dir' name' = .ok none := by
  induction names generalizing dir with
  | nil => simp [steps] at hr
  | cons name names ih =>
    cases names with
    | nil => exact lookup?_of_lastStep hp hjump hr
    | cons next names =>
      simp only [steps] at hr
      split at hr
      · exact ih hr
      split at hr
      · exact ih hr
      match hlookup : fs.lookup? dir name with
      | .error e => simp [hlookup, bind, Except.bind] at hr
      | .ok none => simp [hlookup, bind, Except.bind] at hr
      | .ok (some i) =>
        simp only [hlookup, bind, Except.bind] at hr
        split at hr
        · exact ih hr
        · exact hjump _ _ _ _ _ hr
        · simp at hr

theorem lookup?_of_walk {links : Nat} {dir dir' : Inode} {names : List Bytes} {name' : Bytes}
    {slash : Bool} (hr : fs.walk purpose links dir names slash = .ok (.entry dir' name')) :
    fs.lookup? dir' name' = .ok none := by
  induction links generalizing dir names slash dir' name' with
  | zero => exact lookup?_of_steps hp (fun _ _ _ _ _ hjump => by simp at hjump) hr
  | succ links ih => exact lookup?_of_steps hp (fun _ _ _ _ _ hjump => ih hjump) hr

theorem lookup?_of_resolve {p : Path} {dir : Inode} {name : Bytes}
    (hr : fs.resolve purpose p = .ok (.entry dir name)) : fs.lookup? dir name = .ok none := by
  unfold resolve at hr
  split at hr
  · simp at hr
  split at hr
  · simp at hr
  split at hr
  · simp at hr
  · exact lookup?_of_walk hp hr

end Entries

end GzipStage.FileSystem
