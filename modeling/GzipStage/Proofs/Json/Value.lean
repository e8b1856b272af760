import GzipStage.Json.Value
import Mathlib.Data.String.Basic

/-! Objects keep their names in order. -/
namespace GzipStage.Json.Members

variable {name : String} {value : Value} {members ms : Members}

/-- The names are in ascending order, so that no name occurs twice. -/
def Ordered (members : Members) : Prop := members.Pairwise fun m n => m.1 < n.1

theorem insert_perm (value : Value) (h : name ∉ members.names) :
    (insert name value members).Perm ((name, value) :: members) := by
  induction members with
  | nil => exact .refl _
  | cons m rest ih =>
    obtain ⟨hne, hrest⟩ := not_or.mp (List.mem_cons.not.mp h)
    rw [insert]
    split
    · exact .refl _
    · exact ((ih hrest).cons m).trans (.swap _ _ _)

theorem mem_insert {m : String × Value} (h : m ∈ insert name value members) :
    m = (name, value) ∨ m ∈ members := by
  induction members with
  | nil => exact .inl (List.mem_singleton.mp h)
  | cons n rest ih =>
    rw [insert] at h
    split at h
    case isTrue => exact List.mem_cons.mp h
    case isFalse =>
      split at h
      case isTrue => exact (List.mem_cons.mp h).imp_right (List.mem_cons_of_mem n)
      case isFalse =>
        rcases List.mem_cons.mp h with rfl | h
        · exact .inr List.mem_cons_self
        · exact (ih h).imp_right (List.mem_cons_of_mem n)

theorem insert_ordered (value : Value) (h : members.Ordered) :
    (insert name value members).Ordered := by
  induction members with
  | nil => exact List.pairwise_singleton _ _
  | cons m rest ih =>
    obtain ⟨hm, hmore⟩ := List.pairwise_cons.mp h
    rw [insert]
    split
    case isTrue hlt =>
      refine List.pairwise_cons.mpr ⟨?_, h⟩
      intro n hn
      rcases List.mem_cons.mp hn with rfl | hn
      · exact hlt
      · exact lt_trans hlt (hm n hn)
    case isFalse hnot =>
      split
      case isTrue heq =>
        exact List.pairwise_cons.mpr ⟨fun n hn => heq ▸ hm n hn, hmore⟩
      case isFalse hne =>
        refine List.pairwise_cons.mpr ⟨?_, ih hmore⟩
        intro n hn
        rcases mem_insert hn with rfl | hn
        · exact lt_of_le_of_ne (not_lt.mp hnot) (Ne.symm hne)
        · exact hm n hn

theorem foldl_insert (members : Members) (hms : ms.Ordered)
    (hnodup : (names ms ++ names members).Nodup) :
    Ordered (members.foldl (fun ms m => insert m.1 m.2 ms) ms) ∧
      (members.foldl (fun ms m => insert m.1 m.2 ms) ms).Perm (ms ++ members) := by
  induction members generalizing ms with
  | nil => exact ⟨hms, by rw [List.append_nil]; exact .refl _⟩
  | cons m rest ih =>
    have hm : m.1 ∉ names ms := by
      intro hmem
      exact (List.nodup_append.mp hnodup).2.2 _ hmem _ List.mem_cons_self rfl
    have hperm := insert_perm m.2 hm
    have hnames : (names (insert m.1 m.2 ms)).Perm (m.1 :: names ms) := hperm.map Prod.fst
    have hnodup' : (names (insert m.1 m.2 ms) ++ names rest).Nodup :=
      ((hnames.append_right _).trans List.perm_middle.symm).nodup_iff.mpr hnodup
    obtain ⟨hordered, hmore⟩ := ih (insert_ordered m.2 hms) hnodup'
    exact ⟨hordered, hmore.trans ((hperm.append_right rest).trans List.perm_middle.symm)⟩

theorem foldl_insert_of_perm (h : members.Perm ms) (hms : ms.Ordered) :
    members.foldl (fun ms m => insert m.1 m.2 ms) [] = ms := by
  -- Both lists are in order and hold the same members, so they are the same list.
  have hnodup : (names members).Nodup := by
    refine (h.map Prod.fst).nodup_iff.mpr (List.pairwise_map.mpr (hms.imp fun hlt => ne_of_lt hlt))
  obtain ⟨hordered, hperm⟩ := foldl_insert members List.Pairwise.nil hnodup
  have hasymm (m n : String × Value) (hlt : m.1 < n.1) (hgt : n.1 < m.1) : m = n :=
    absurd hlt (lt_asymm hgt)
  exact (hperm.trans h).eq_of_pairwise (fun m n _ _ => hasymm m n) hordered hms

end GzipStage.Json.Members
