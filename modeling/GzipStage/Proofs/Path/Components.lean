import GzipStage.Proofs.Path.Course

/-! The components of a path. -/
namespace GzipStage.Path

inductive Component where
  | root
  | current
  | above
  | normal (name : Bytes)
  deriving DecidableEq

/-- What a name adds to the components; `.` adds nothing. -/
def Component.ofName? (name : Bytes) : Option Component :=
  if name = Path.here then none
  else if name = Path.above then some .above
  else some (.normal name)

def components (p : Path) : List Component :=
  if p.isAbsolute then .root :: p.names.filterMap Component.ofName?
  else if p.names.head? = some here then .current :: p.names.filterMap Component.ofName?
  else p.names.filterMap Component.ofName?

theorem namesOnto_ne_nil {names : List Bytes} {name : Bytes} (bs : Bytes)
    (h : names ≠ [] ∨ name ≠ []) : namesOnto names name bs ≠ [] := by
  induction bs generalizing names name with
  | nil =>
    unfold namesOnto
    split
    next hname => exact h.resolve_right fun hne => hne hname
    next => exact List.cons_ne_nil _ _
  | cons b bs ih =>
    unfold namesOnto
    split
    · apply ih
      left
      split
      next hname => exact h.resolve_right fun hne => hne hname
      next => exact List.cons_ne_nil _ _
    · apply ih
      right
      exact List.cons_ne_nil _ _

theorem names_ne_nil {p : Path} (hp : p.bytes ≠ []) (hrelative : p.isAbsolute = false) :
    p.names ≠ [] := by
  obtain ⟨bytes⟩ := p
  obtain ⟨b, bs, rfl⟩ := List.exists_cons_of_ne_nil hp
  have hb : b ≠ Octet.slash := by
    rintro rfl
    exact Bool.noConfusion hrelative
  unfold names
  rw [namesOnto, if_neg hb, ne_eq, List.reverse_eq_nil_iff]
  apply namesOnto_ne_nil
  right
  exact List.cons_ne_nil _ _

/-- The components of a directory stand in front of those of a name below it. -/
theorem components_join_prefix {base name : Path} (hbase : base.bytes ≠ [])
    (hname : name.isAbsolute = false) : base.components <+: (base.join name).components := by
  obtain ⟨hnames, habsolute⟩ := names_join hbase hname
  unfold components
  rw [hnames, habsolute, List.filterMap_append]
  by_cases hrooted : base.isAbsolute = true
  · rw [if_pos hrooted, if_pos hrooted]
    exact List.prefix_append _ _
  · have hfirst : (base.names ++ name.names).head? = base.names.head? :=
      List.head?_append_of_ne_nil _ (names_ne_nil hbase (eq_false_of_ne_true hrooted))
    rw [if_neg hrooted, if_neg hrooted, hfirst]
    split
    · exact List.prefix_append _ _
    · exact List.prefix_append _ _

end GzipStage.Path
