import GzipStage.FileSystem.Operations
import GzipStage.Proofs.FileSystem.Walk

/-! What writing a file changes. -/
namespace GzipStage.FileSystem

/-- The file system in which the place of a file to write holds `contents`: a file that is there
gets them, a free name gets a new file, and a device is left alone. -/
def put (fs : FileSystem) (contents : Bytes) : Found → FileSystem
  | .node i => fs.store i contents
  | .entry dir name => (fs.addNode dir name (.file contents)).1

/-- `after` differs from `fs` in nothing but the file at `p`: it may hold something else, or it may
be new, and then its directory has its name before the names it had. -/
structure ChangedOnlyAt (fs after : FileSystem) (p : Path) : Prop where
  working : after.working = fs.working
  nodes : ∀ (i : Inode) (node : Node), fs.nodes[i]? = some node →
    after.nodes[i]? = some node ∨
    (fs.locate p = .ok i ∧ ∃ old new, node = .file old ∧ after.nodes[i]? = some (.file new)) ∨
    ∃ name parent entries, fs.resolve .create p = .ok (.entry i name) ∧
      node = .directory parent entries ∧
      after.nodes[i]? = some (.directory parent ((name, fs.nodes.size) :: entries))
  added : ∀ i, fs.nodes.size ≤ i → after.nodes[i]? = none ∨
    i = fs.nodes.size ∧ (∃ dir name, fs.resolve .create p = .ok (.entry dir name)) ∧
      ∃ new, after.nodes[i]? = some (.file new)
  paths : ∀ (purpose : Purpose) (q : Path) (i : Inode), purpose ≠ .place →
    fs.resolve purpose q = .ok (.node i) → after.resolve purpose q = .ok (.node i)

theorem ChangedOnlyAt.refl (fs : FileSystem) (p : Path) : fs.ChangedOnlyAt fs p where
  working := rfl
  nodes _ _ h := .inl h
  added _ hi := .inl (Array.getElem?_eq_none hi)
  paths _ _ _ _ := id

theorem locate_ok_iff {fs : FileSystem} {p : Path} {i : Inode} :
    fs.locate p = .ok i ↔ fs.resolve .follow p = .ok (.node i) := by
  unfold locate
  match fs.resolve .follow p with
  | .error e => simp [bind, Except.bind]
  | .ok (.node j) => simp [bind, Except.bind]
  | .ok (.entry dir name) => simp [bind, Except.bind]

theorem locate_of_create {fs : FileSystem} {p : Path} {i : Inode}
    (h : fs.resolve .create p = .ok (.node i)) : fs.locate p = .ok i :=
  locate_ok_iff.mpr ((Extends.refl fs).resolve ⟨by decide, .inr ⟨rfl, rfl⟩⟩ h (.node i))

variable {fs : FileSystem}

theorem ChangedOnlyAt.locate {after : FileSystem} {p q : Path} (h : fs.ChangedOnlyAt after p)
    {i : Inode} (hq : fs.locate q = .ok i) : after.locate q = .ok i :=
  locate_ok_iff.mpr (h.paths .follow q i (by decide) (locate_ok_iff.mp hq))

theorem ext_nodes {a b : FileSystem} (hworking : a.working = b.working)
    (hnodes : ∀ i : Inode, a.nodes[i]? = b.nodes[i]?) : a = b := by
  cases a
  cases b
  obtain rfl := hworking
  obtain rfl := Array.ext_getElem? hnodes
  rfl

theorem nodes_set {i : Inode} {node : Node} (hi : i < fs.nodes.size) (j : Inode) :
    (fs.set i node).nodes[j]? = if j = i then some node else fs.nodes[j]? := by
  by_cases hj : j = i
  · rw [if_pos hj, hj]
    exact Array.getElem?_setIfInBounds_self_of_lt hi
  · rw [if_neg hj]
    exact Array.getElem?_setIfInBounds_ne (Ne.symm hj)

theorem size_set (i : Inode) (node : Node) : (fs.set i node).nodes.size = fs.nodes.size := by
  simp [set]

theorem store_file {i : Inode} {old : Bytes} (h : fs.nodes[i]? = some (.file old))
    (contents : Bytes) : fs.store i contents = fs.set i (.file contents) := by
  simp only [store, h]

theorem store_other {i : Inode} (h : ∀ old, fs.nodes[i]? ≠ some (.file old))
    (contents : Bytes) : fs.store i contents = fs := by
  unfold store
  split
  next old hfile => exact (h old hfile).elim
  next => rfl

theorem nodes_addNode {dir parent : Inode} {entries : List (Bytes × Inode)}
    (hdir : fs.nodes[dir]? = some (.directory parent entries)) (name : Bytes) (node : Node)
    (j : Inode) :
    (fs.addNode dir name node).1.nodes[j]? =
      if j = dir then some (.directory parent ((name, fs.nodes.size) :: entries))
      else if j = fs.nodes.size then some node else fs.nodes[j]? := by
  have hlt : dir < fs.nodes.size := (Array.getElem?_eq_some_iff.mp hdir).1
  have hpush : (fs.nodes.push node)[dir]? = some (.directory parent entries) := by
    rw [Array.getElem?_push_lt hlt, ← Array.getElem?_eq_getElem hlt, hdir]
  have hlt' : dir < (fs.nodes.push node).size := by
    rw [Array.size_push]
    exact Nat.lt_succ_of_lt hlt
  simp only [addNode, addEntry, hpush]
  rw [nodes_set hlt']
  split_ifs with hj hsize
  · rfl
  · rw [hsize]
    exact Array.getElem?_push_size
  · rw [Array.getElem?_push, if_neg hsize]

theorem addNode_working (dir : Inode) (name : Bytes) (node : Node) :
    (fs.addNode dir name node).1.working = fs.working := by
  simp only [addNode, addEntry]
  split <;> rfl

theorem size_addNode (dir : Inode) (name : Bytes) (node : Node) :
    (fs.addNode dir name node).1.nodes.size = fs.nodes.size + 1 := by
  simp only [addNode, addEntry]
  split
  · rw [size_set]
    exact Array.size_push node
  · exact Array.size_push node

theorem store_cases (fs : FileSystem) (i : Inode) (contents : Bytes) :
    (∃ old, fs.nodes[i]? = some (.file old) ∧ fs.store i contents = fs.set i (.file contents)) ∨
      (∀ old, fs.nodes[i]? ≠ some (.file old)) ∧ fs.store i contents = fs := by
  by_cases h : ∃ old, fs.nodes[i]? = some (.file old)
  · obtain ⟨old, hold⟩ := h
    exact .inl ⟨old, hold, store_file hold contents⟩
  · have hother : ∀ old, fs.nodes[i]? ≠ some (.file old) := fun old hold => h ⟨old, hold⟩
    exact .inr ⟨hother, store_other hother contents⟩

/-- What a path for a file to write leads to: a node, or a free name in a directory. -/
theorem entry_of_resolve {p : Path} {dir : Inode} {name : Bytes}
    (h : fs.resolve .create p = .ok (.entry dir name)) :
    ∃ parent entries, fs.nodes[dir]? = some (.directory parent entries) ∧
      name.length ≤ maxName ∧ entries.lookup name = none :=
  lookup?_ok (lookup?_of_resolve (by decide) h)

theorem store_extends (fs : FileSystem) (i : Inode) (contents : Bytes) :
    fs.Extends (fs.store i contents) := by
  obtain ⟨old, hold, hstore⟩ | ⟨_, hstore⟩ := fs.store_cases i contents
  · have hlt : i < fs.nodes.size := (Array.getElem?_eq_some_iff.mp hold).1
    rw [hstore]
    refine ⟨rfl, fun j parent entries hj => ⟨entries, ?_, fun _ _ => id⟩, fun j target hj => ?_,
      fun j hj => ?_⟩
    · rwa [nodes_set hlt, if_neg (by rintro rfl; simp [hold] at hj)]
    · rwa [nodes_set hlt, if_neg (by rintro rfl; simp [hold] at hj)]
    · unfold Plain
      rw [nodes_set hlt]
      split
      · simp
      · exact hj
  · rw [hstore]
    exact Extends.refl fs

/-- A new file under a free name changes no walk that leads somewhere. -/
theorem addNode_extends {dir parent : Inode} {entries : List (Bytes × Inode)} {name : Bytes}
    (hdir : fs.nodes[dir]? = some (.directory parent entries)) (hfree : entries.lookup name = none)
    (contents : Bytes) : fs.Extends (fs.addNode dir name (.file contents)).1 := by
  refine ⟨addNode_working dir name _, fun j parent' entries' hj => ?_, fun j target hj => ?_,
    fun j hj => ?_⟩
  · rw [nodes_addNode hdir]
    by_cases hjdir : j = dir
    · rw [hjdir, hdir] at hj
      obtain ⟨rfl, rfl⟩ : parent = parent' ∧ entries = entries' := by simpa using hj
      refine ⟨(name, fs.nodes.size) :: entries, by rw [if_pos hjdir], fun other k hk => ?_⟩
      have hne : other ≠ name := by
        rintro rfl
        simp [hfree] at hk
      rw [List.lookup_cons, beq_false_of_ne hne]
      exact hk
    · have hlt : j < fs.nodes.size := (Array.getElem?_eq_some_iff.mp hj).1
      refine ⟨entries', ?_, fun _ _ => id⟩
      rwa [if_neg hjdir, if_neg (Nat.ne_of_lt hlt)]
  · have hlt : j < fs.nodes.size := (Array.getElem?_eq_some_iff.mp hj).1
    rwa [nodes_addNode hdir, if_neg (by rintro rfl; simp [hdir] at hj),
      if_neg (Nat.ne_of_lt hlt)]
  · have hne : j ≠ dir := by
      rintro rfl
      exact hj.1 _ _ hdir
    unfold Plain
    rw [nodes_addNode hdir, if_neg hne]
    split
    · simp
    · exact hj

theorem put_extends {p : Path} {found : Found} (h : fs.resolve .create p = .ok found)
    (contents : Bytes) : fs.Extends (fs.put contents found) := by
  cases found with
  | node i => exact fs.store_extends i contents
  | entry dir name =>
    obtain ⟨parent, entries, hdir, _, hfree⟩ := entry_of_resolve h
    exact addNode_extends hdir hfree contents

theorem put_changedOnlyAt {p : Path} {found : Found} (h : fs.resolve .create p = .ok found)
    (contents : Bytes) : fs.ChangedOnlyAt (fs.put contents found) p := by
  have hextends := put_extends h contents
  have hpaths : ∀ (purpose : Purpose) (q : Path) (i : Inode), purpose ≠ .place →
      fs.resolve purpose q = .ok (.node i) →
      (fs.put contents found).resolve purpose q = .ok (.node i) :=
    fun purpose q i hp hq => hextends.resolve ⟨hp, .inl rfl⟩ hq (.node i)
  cases found with
  | node i =>
    obtain ⟨old, hold, hstore⟩ | ⟨_, hstore⟩ := fs.store_cases i contents
    · have hlt : i < fs.nodes.size := (Array.getElem?_eq_some_iff.mp hold).1
      refine ⟨hextends.working, fun j node hj => ?_, fun j hj => .inl ?_, hpaths⟩
      · rw [put, hstore, nodes_set hlt]
        by_cases hji : j = i
        · subst hji
          rw [hold, Option.some.injEq] at hj
          exact .inr (.inl ⟨locate_of_create h, old, contents, hj.symm, by rw [if_pos rfl]⟩)
        · exact .inl (by rwa [if_neg hji])
      · rw [put, hstore]
        exact Array.getElem?_eq_none (by rw [size_set]; exact hj)
    · rw [put, hstore] at hpaths ⊢
      exact ChangedOnlyAt.refl fs p
  | entry dir name =>
    obtain ⟨parent, entries, hdir, _, hfree⟩ := entry_of_resolve h
    have hlt : dir < fs.nodes.size := (Array.getElem?_eq_some_iff.mp hdir).1
    refine ⟨hextends.working, fun j node hj => ?_, fun j hj => ?_, hpaths⟩
    · rw [put, nodes_addNode hdir]
      by_cases hjdir : j = dir
      · subst hjdir
        rw [hdir, Option.some.injEq] at hj
        exact .inr (.inr ⟨name, parent, entries, h, hj.symm, by rw [if_pos rfl]⟩)
      · have hjlt : j < fs.nodes.size := (Array.getElem?_eq_some_iff.mp hj).1
        exact .inl (by rwa [if_neg hjdir, if_neg (Nat.ne_of_lt hjlt)])
    · rw [put, nodes_addNode hdir, if_neg (Nat.ne_of_gt (Nat.lt_of_lt_of_le hlt hj))]
      split
      next hsize => exact .inr ⟨hsize, ⟨dir, name, h⟩, contents, rfl⟩
      next => exact .inl (Array.getElem?_eq_none hj)

/-- The node that holds what has been written at a place. -/
def placeOf (fs : FileSystem) : Found → Inode
  | .node i => i
  | .entry _ _ => fs.nodes.size

/-- Making a file to write empties what is there, or adds an empty file. -/
theorem create_ok {p : Path} {made : FileSystem} {i : Inode} (h : fs.create p = .ok (made, i)) :
    ∃ found, fs.resolve .create p = .ok found ∧ made = fs.put [] found ∧ i = fs.placeOf found := by
  unfold create at h
  match hr : fs.resolve .create p with
  | .error e => simp [hr, bind, Except.bind] at h
  | .ok (.entry dir name) =>
    simp only [hr, bind, Except.bind, Except.ok.injEq, addNode, Prod.mk.injEq] at h
    exact ⟨_, rfl, h.1.symm, h.2.symm⟩
  | .ok (.node j) =>
    simp only [hr, bind, Except.bind] at h
    split at h
    · simp at h
    next old hold =>
      simp only [Except.ok.injEq, Prod.mk.injEq] at h
      exact ⟨_, rfl, by rw [put, store_file hold, h.1], h.2.symm⟩
    next hdirectory hfile =>
      simp only [Except.ok.injEq, Prod.mk.injEq] at h
      exact ⟨_, rfl, by rw [put, store_other hfile, h.1], h.2.symm⟩

theorem create_of_resolve {p : Path} {found : Found} (h : fs.resolve .create p = .ok found)
    (hfound : ∀ i parent entries, found = .node i →
      fs.nodes[i]? ≠ some (.directory parent entries)) :
    fs.create p = .ok (fs.put [] found, fs.placeOf found) := by
  unfold create
  cases found with
  | entry dir name => simp only [h, bind, Except.bind, put, addNode, placeOf]
  | node i =>
    simp only [h, bind, Except.bind]
    split
    next parent entries hdir => exact (hfound i parent entries rfl hdir).elim
    next old hold => rw [put, store_file hold, placeOf]
    next hdirectory hfile => rw [put, store_other hfile, placeOf]

/-- Whether a place is free or a file, so that it holds what is written there. -/
def Holds (fs : FileSystem) : Found → Prop
  | .node i => ∃ old, fs.nodes[i]? = some (.file old)
  | .entry _ _ => True

theorem nodes_put {p : Path} {found : Found} (h : fs.resolve .create p = .ok found)
    (hholds : fs.Holds found) (contents : Bytes) :
    (fs.put contents found).nodes[fs.placeOf found]? = some (.file contents) := by
  cases found with
  | node i =>
    obtain ⟨old, hold⟩ := hholds
    have hlt : i < fs.nodes.size := (Array.getElem?_eq_some_iff.mp hold).1
    rw [put, store_file hold, nodes_set hlt, placeOf, if_pos rfl]
  | entry dir name =>
    obtain ⟨parent, entries, hdir, _, _⟩ := entry_of_resolve h
    have hlt : dir < fs.nodes.size := (Array.getElem?_eq_some_iff.mp hdir).1
    rw [put, nodes_addNode hdir, placeOf, if_neg (Nat.ne_of_gt hlt), if_pos rfl]

/-- Storing in the file that has been made is writing in the first place. -/
theorem store_put {p : Path} {found : Found} (h : fs.resolve .create p = .ok found)
    (first contents : Bytes) :
    (fs.put first found).store (fs.placeOf found) contents = fs.put contents found := by
  cases found with
  | node i =>
    obtain ⟨old, hold, hstore⟩ | ⟨hother, hstore⟩ := fs.store_cases i first
    · have hlt : i < fs.nodes.size := (Array.getElem?_eq_some_iff.mp hold).1
      have hfirst : (fs.set i (.file first)).nodes[i]? = some (.file first) := by
        rw [nodes_set hlt, if_pos rfl]
      rw [put, placeOf, hstore, store_file hfirst, put, store_file hold]
      simp [set]
    · rw [put, placeOf, hstore, put]
  | entry dir name =>
    obtain ⟨parent, entries, hdir, _, _⟩ := entry_of_resolve h
    have hlt : dir < fs.nodes.size := (Array.getElem?_eq_some_iff.mp hdir).1
    have hsize : (fs.addNode dir name (.file first)).1.nodes.size = fs.nodes.size + 1 :=
      size_addNode dir name _
    rw [store_file (nodes_put h trivial first)]
    apply ext_nodes
    · exact (addNode_working dir name _).trans (addNode_working dir name _).symm
    · intro j
      rw [placeOf, put, nodes_set (by rw [hsize]; exact Nat.lt_succ_self _), put,
        nodes_addNode hdir, nodes_addNode hdir]
      split_ifs with hnew hj
      · exact (Nat.ne_of_gt hlt (hnew.symm.trans hj)).elim
      all_goals rfl

/-- Where something has been written, it is found, for reading and for writing. -/
theorem resolve_put {p : Path} {found : Found} {purpose : Purpose}
    (h : fs.resolve .create p = .ok found) (hp : Purpose.create.Allows purpose)
    (contents : Bytes) :
    (fs.put contents found).resolve purpose p = .ok (.node (fs.placeOf found)) := by
  have hextends := put_extends h contents
  cases found with
  | node i => exact hextends.resolve hp h (.node i)
  | entry dir name =>
    obtain ⟨parent, entries, hdir, hlen, _⟩ := entry_of_resolve h
    have hplace := nodes_put h trivial contents
    have hafter : (fs.put contents (.entry dir name)).nodes[dir]? =
        some (.directory parent ((name, fs.nodes.size) :: entries)) := by
      rw [put, nodes_addNode hdir, if_pos rfl]
    refine hextends.resolve hp h (.entry rfl ?_ (plain_of_file hplace))
    simp only [lookup?, hafter, List.lookup_cons_self]
    rw [if_neg (by omega)]
    rfl

theorem locate_put {p : Path} {found : Found} (h : fs.resolve .create p = .ok found)
    (contents : Bytes) : (fs.put contents found).locate p = .ok (fs.placeOf found) := by
  rw [locate_ok_iff]
  exact resolve_put h ⟨by decide, .inr ⟨rfl, rfl⟩⟩ contents

/-- Making a file where one has been written comes to the same as making it in the first place. -/
theorem create_put {p : Path} {found : Found} (h : fs.resolve .create p = .ok found)
    (hholds : fs.Holds found) (contents : Bytes) :
    (fs.put contents found).create p = fs.create p := by
  have hagain : (fs.put contents found).resolve .create p = .ok (.node (fs.placeOf found)) :=
    resolve_put h ⟨by decide, .inl rfl⟩ contents
  have hwritten := nodes_put h hholds contents
  rw [create_of_resolve hagain, put, store_put h, create_of_resolve h]
  · rfl
  · rintro i parent entries rfl hdirectory
    obtain ⟨old, hold⟩ := hholds
    simp [hold] at hdirectory
  · rintro i parent entries hi hdirectory
    rw [← Found.node.inj hi, hwritten] at hdirectory
    simp at hdirectory

theorem put_eq_self {found : Found} (hholds : ¬ fs.Holds found) (contents : Bytes) :
    fs.put contents found = fs := by
  cases found with
  | node i => exact store_other (fun old hold => hholds ⟨old, hold⟩) contents
  | entry dir name => exact (hholds trivial).elim

/-- A path that leads to a node leads there for writing as well, if it can be written at all. -/
theorem found_of_locate {p : Path} {found : Found} {i : Inode}
    (h : fs.resolve .create p = .ok found) (hi : i < fs.nodes.size) (hp : fs.locate p = .ok i) :
    found = .node i := by
  have hafter : (fs.put [] found).locate p = .ok i := (put_changedOnlyAt h []).locate hp
  rw [locate_put h, Except.ok.injEq] at hafter
  cases found with
  | node j => rw [← hafter, placeOf]
  | entry dir name => exact (Nat.ne_of_lt hi hafter.symm).elim

/-- What can be written and is no device or directory holds what is written. -/
theorem holds_of_locate {p : Path} {found : Found} (h : fs.resolve .create p = .ok found)
    (hp : ∀ i, fs.locate p = .ok i → ∃ old, fs.nodes[i]? = some (.file old)) :
    fs.Holds found := by
  cases found with
  | node i => exact hp i (locate_of_create h)
  | entry dir name => trivial

theorem read_put {p : Path} {found : Found} (h : fs.resolve .create p = .ok found)
    (hholds : fs.Holds found) (contents : Bytes) :
    (fs.put contents found).read p = .ok contents := by
  simp only [read, locate_put h, bind, Except.bind, FileSystem.contents, nodes_put h hholds]

theorem node_of_read {p : Path} {octets : Bytes} (h : fs.read p = .ok octets) :
    ∃ i node, fs.locate p = .ok i ∧ fs.nodes[i]? = some node := by
  unfold read at h
  match hp : fs.locate p with
  | .error e => simp [hp, bind, Except.bind] at h
  | .ok i =>
    simp only [hp, bind, Except.bind, FileSystem.contents] at h
    match hnode : fs.nodes[i]? with
    | some node => exact ⟨i, node, rfl, hnode⟩
    | none => simp [hnode] at h

/-- A path that leads to another place leads there still, and to the same contents. -/
theorem ChangedOnlyAt.read {after : FileSystem} {p q : Path} (h : fs.ChangedOnlyAt after p)
    {i : Inode} {node : Node} (hq : fs.locate q = .ok i) (hi : fs.nodes[i]? = some node)
    (hne : fs.locate p ≠ .ok i) : after.read q = fs.read q := by
  have hafter : after.locate q = .ok i := h.locate hq
  simp only [FileSystem.read, hq, hafter, bind, Except.bind, FileSystem.contents]
  obtain hsame | ⟨hp, _⟩ | ⟨name, parent, entries, _, rfl, hnew⟩ := h.nodes i node hi
  · rw [hsame, hi]
  · exact (hne hp).elim
  · rw [hnew, hi]

end GzipStage.FileSystem
