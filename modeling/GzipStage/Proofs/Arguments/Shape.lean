import GzipStage.Proofs.Arguments.Resolve
import GzipStage.Proofs.Path.Components

/-! The shape of resolved paths. -/
namespace GzipStage.Arguments

open GzipStage.Path

variable {base name name' : String} {p p' : Path}

/-- What is put between a directory and a name. -/
def gap (base : String) : String := if base.toList.getLast? = some '/' then "" else "/"

def SameButSlashes (name name' : String) : Prop :=
  ∃ (i j : Nat) (rest : List Char), name.toList = List.replicate i '/' ++ rest ∧
    name'.toList = List.replicate j '/' ++ rest

/-- The path for a directory and a name below it, whatever else the arguments say and whether the
artifact or the single staged file is looked for. -/
structure Resolves (base name : String) (p : Path) : Prop where
  target : ∀ a : Arguments, a.tree = base → a.filename = name → a.resolveTarget = .ok p
  source : ∀ (a : Arguments) (value : Json.Value), a.input.path = base →
    a.input.files = [(name, value)] → a.resolveSource = .ok p

theorem encodeChar_getLast?_slash (c : Char) :
    (Utf8.encodeChar c).getLast? = some Octet.slash ↔ c = '/' := by
  constructor
  · intro h
    apply Utf8.eq_of_mem_encodeChar (show '/'.toNat < 0x80 by decide)
    exact List.mem_of_getLast? h
  · rintro rfl
    decide

theorem encode_getLast?_slash (text : String) :
    (Utf8.encode text).getLast? = some Octet.slash ↔ text.toList.getLast? = some '/' := by
  unfold Utf8.encode
  rcases List.eq_nil_or_concat' text.toList with hempty | ⟨cs, c, hlast⟩
  · rw [hempty]
    exact ⟨nofun, nofun⟩
  · have hc : (Utf8.encodeChar c).getLast? ≠ none :=
      mt List.getLast?_eq_none_iff.mp (Utf8.encodeChar_ne_nil c)
    rw [hlast, List.flatMap_append, List.flatMap_singleton, List.getLast?_append,
      Option.or_of_isSome (Option.isSome_iff_ne_none.mpr hc), encodeChar_getLast?_slash,
      List.getLast?_concat, Option.some.injEq]

theorem encode_injective {s t : String} (h : Utf8.encode s = Utf8.encode t) : s = t := by
  have hdecoded := congrArg Utf8.decode? h
  rwa [Utf8.decode?_encode, Utf8.decode?_encode, Option.some.injEq] at hdecoded

theorem join_ofString (hbase : base ≠ "") (name : String) :
    (ofString base).join (ofString (dropSlashes name)) =
      ofString (base ++ gap base ++ dropSlashes name) := by
  have hempty : ¬ (ofString base).bytes = [] := ofString_bytes_ne_nil hbase
  have hends : (ofString base).bytes.getLast? = some Octet.slash ↔
      base.toList.getLast? = some '/' := encode_getLast?_slash base
  have hrelative : ¬ (ofString (dropSlashes name)).isAbsolute = true :=
    ne_true_of_eq_false (dropSlashes_relative name)
  rw [join, if_neg hrelative]
  simp only [hempty, decide_false, Bool.false_or, decide_eq_true_eq, hends]
  unfold gap
  split
  · rw [String.append_empty, ofString, ofString, ofString, Utf8.encode_append]
  · rw [ofString, ofString, ofString, Utf8.encode_append, Utf8.encode_append, List.append_assoc]
    rfl

theorem dropSlashes_eq_iff :
    dropSlashes name = dropSlashes name' ↔ SameButSlashes name name' := by
  unfold dropSlashes SameButSlashes
  rw [String.ofList_inj]
  constructor
  · intro h
    have hslashes (text : String) : text.toList =
        List.replicate (text.toList.takeWhile (· == '/')).length '/' ++
          text.toList.dropWhile (· == '/') := by
      have hall : text.toList.takeWhile (· == '/') =
          List.replicate (text.toList.takeWhile (· == '/')).length '/' := by
        apply List.eq_replicate_of_mem
        intro c hc
        have hslash := List.mem_takeWhile_imp hc
        exact beq_iff_eq.mp hslash
      rw [← hall, List.takeWhile_append_dropWhile]
    exact ⟨_, _, _, hslashes name, h ▸ hslashes name'⟩
  · rintro ⟨i, j, rest, hname, hname'⟩
    have hskip (n : Nat) : ∀ c ∈ List.replicate n '/', (c == '/') = true := by
      intro c hc
      exact beq_iff_eq.mpr (List.eq_of_mem_replicate hc)
    rw [hname, hname', List.dropWhile_append_of_pos (hskip i),
      List.dropWhile_append_of_pos (hskip j)]

theorem Resolves.of_text (hbase : base ≠ "") (hname : ¬ Nameless name) :
    Resolves base name (ofString (base ++ gap base ++ dropSlashes name)) := by
  constructor
  · rintro a rfl rfl
    exact resolveTarget_ok_iff.mpr ⟨hbase, hname, (join_ofString hbase _).symm⟩
  · rintro a value rfl hfiles
    exact resolveSource_ok_iff.mpr ⟨name, value, hfiles, hbase, hname, (join_ofString hbase _).symm⟩

/-- There are arguments for every directory and name, so at most one path is resolved. -/
theorem Resolves.eq_text (hbase : base ≠ "") (h : Resolves base name p) :
    p = ofString (base ++ gap base ++ dropSlashes name) := by
  have hresolved := h.target { tree := base, filename := name } rfl rfl
  obtain ⟨_, _, hp⟩ := resolveTarget_ok_iff.mp hresolved
  rw [hp]
  exact join_ofString hbase name

/-- A directory that is not empty and a name that is not made of slashes alone resolve to the
directory, one slash unless the directory ends in one, and the name without its leading slashes.
The components of the directory are the first ones of the path, and another name has the same path
exactly when it differs in leading slashes alone. -/
theorem resolved_shape (hbase : base ≠ "") (hname : ¬ Nameless name) :
    ∃ p, Resolves base name p ∧
      p.bytes = Utf8.encode (base ++ gap base ++ dropSlashes name) ∧
      (ofString base).components <+: p.components ∧
      ∀ name' p', Resolves base name' p' → (p'.bytes = p.bytes ↔ SameButSlashes name' name) := by
  refine ⟨_, Resolves.of_text hbase hname, rfl, ?_, ?_⟩
  · rw [← join_ofString hbase]
    exact components_join_prefix (ofString_bytes_ne_nil hbase) (dropSlashes_relative name)
  · intro name' p' h
    rw [h.eq_text hbase, ← dropSlashes_eq_iff]
    simp only [ofString, Utf8.encode_append]
    constructor
    · intro hsame
      exact encode_injective (List.append_cancel_left hsame)
    · intro hsame
      rw [hsame]

/-- A directory with slashes and a `.` at its end, and a rooted name with both inside. -/
theorem resolved_shape_dotted :
    ∃ p, Resolves "./a//." "//b/.//../c" p ∧ Resolves "./a//." "b/.//../c" p ∧
      p = ofString "./a//./b/.//../c" ∧
      (ofString "./a//.").components = [.current, .normal (Utf8.encode "a")] ∧
      p.components = [.current, .normal (Utf8.encode "a"), .normal (Utf8.encode "b"), .above,
        .normal (Utf8.encode "c")] := by
  have hbase : "./a//." ≠ "" := by decide
  have hname : ¬ Nameless "//b/.//../c" := fun h => absurd (h 'b' (by decide)) (by decide)
  have hname' : ¬ Nameless "b/.//../c" := fun h => absurd (h 'b' (by decide)) (by decide)
  obtain ⟨⟨_⟩, hp, rfl, _, hsame⟩ := resolved_shape hbase hname
  obtain ⟨⟨_⟩, hp', rfl, _⟩ := resolved_shape hbase hname'
  have hbytes := (hsame _ _ hp').mpr ⟨0, 2, _, rfl, rfl⟩
  dsimp only at hbytes
  rw [hbytes] at hp'
  exact ⟨_, hp, hp', by decide, by decide, by decide⟩

end GzipStage.Arguments
