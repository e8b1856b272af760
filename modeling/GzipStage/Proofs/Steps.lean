import Mathlib.Data.List.Basic

/-! Steps that may fail, one after another; the first reason in a table that applies decides. -/
namespace GzipStage

section Bind

variable {ε α β : Type} {x : Except ε α} {f : α → Except ε β}

theorem ok_bind (a : α) (f : α → Except ε β) : (Except.ok a >>= f) = f a := rfl

theorem bind_ok_iff {b : β} : x >>= f = .ok b ↔ ∃ a, x = .ok a ∧ f a = .ok b := by
  cases x with
  | error e => exact ⟨nofun, nofun⟩
  | ok a => exact ⟨fun h => ⟨a, rfl, h⟩, fun ⟨_, ha, h⟩ => Except.ok.inj ha ▸ h⟩

theorem eq_ok_of_toOption {a : α} (h : x.toOption = some a) : x = .ok a := by
  cases x with
  | error e => cases h
  | ok a' => rw [Option.some.inj h]

/-- Two steps fail when the first one does, or the second one after it. -/
theorem error_of_bind {e : ε} (h : x >>= f = .error e) :
    x = .error e ∨ ∃ a, x = .ok a ∧ f a = .error e := by
  cases x with
  | error e' =>
    cases h
    exact .inl rfl
  | ok a => exact .inr ⟨a, rfl, h⟩

end Bind

/-- The first row that applies to something decides. -/
inductive Decides {α : Type} : List (α → Prop) → α → Prop
  | here {row : α → Prop} {rows : List (α → Prop)} {x : α} (h : row x) : Decides (row :: rows) x
  | later {row : α → Prop} {rows : List (α → Prop)} {x : α} (hrow : ∀ y, ¬ row y)
      (h : Decides rows x) : Decides (row :: rows) x

namespace Decides

variable {α : Type} {row : α → Prop} {rows more : List (α → Prop)} {x : α}

theorem mem (h : Decides rows x) : ∃ row ∈ rows, row x := by
  induction h with
  | here h => exact ⟨_, List.mem_cons_self, h⟩
  | later _ _ ih =>
    obtain ⟨row, hmem, hrow⟩ := ih
    exact ⟨row, List.mem_cons_of_mem _ hmem, hrow⟩

theorem exists_of_mem (hmem : row ∈ rows) (h : row x) : ∃ y, Decides rows y := by
  induction rows with
  | nil => cases hmem
  | cons first rows ih =>
    by_cases hfirst : ∃ y, first y
    · obtain ⟨y, hy⟩ := hfirst
      exact ⟨y, .here hy⟩
    · rcases List.mem_cons.mp hmem with rfl | hmem
      · exact absurd ⟨x, h⟩ hfirst
      · obtain ⟨y, hy⟩ := ih hmem
        exact ⟨y, .later (not_exists.mp hfirst) hy⟩

theorem append_iff :
    Decides (rows ++ more) x ↔
      Decides rows x ∨ (∀ row ∈ rows, ∀ y, ¬ row y) ∧ Decides more x := by
  induction rows with
  | nil => exact ⟨fun h => .inr ⟨List.forall_mem_nil _, h⟩, fun h => h.elim nofun And.right⟩
  | cons first rows ih =>
    rw [List.cons_append, List.forall_mem_cons]
    constructor
    · intro h
      cases h with
      | here h => exact .inl (.here h)
      | later hfirst h =>
        rcases ih.mp h with h | ⟨hrows, h⟩
        · exact .inl (.later hfirst h)
        · exact .inr ⟨⟨hfirst, hrows⟩, h⟩
    · rintro (h | ⟨⟨hfirst, hrows⟩, h⟩)
      · cases h with
        | here h => exact .here h
        | later hfirst h => exact .later hfirst (ih.mpr (.inl h))
      · exact .later hfirst (ih.mpr (.inr ⟨hrows, h⟩))

end Decides

def FailsBy {ε α : Type} (x : Except ε α) (rows : List (ε → Prop)) : Prop :=
  ∀ e, x = .error e ↔ Decides rows e

namespace FailsBy

variable {ε α β : Type} {x : Except ε α} {f : α → Except ε β} {rows more : List (ε → Prop)}

theorem ok (a : α) : FailsBy (.ok a : Except ε α) [] := fun _ => ⟨nofun, nofun⟩

theorem error (e : ε) (rows : List (ε → Prop)) :
    FailsBy (.error e : Except ε α) ((· = e) :: rows) := by
  intro e'
  constructor
  · intro h
    exact .here (Except.error.inj h).symm
  · intro h
    cases h with
    | here h => rw [h]
    | later hnot _ => exact absurd rfl (hnot e)

theorem skip {row : ε → Prop} (h : FailsBy x rows) (hrow : ∀ e, ¬ row e) :
    FailsBy x (row :: rows) := by
  intro e
  rw [h e]
  constructor
  · exact .later hrow
  · intro hdecides
    cases hdecides with
    | here hhere => exact absurd hhere (hrow e)
    | later _ hlater => exact hlater

theorem ok_iff (h : FailsBy x rows) : (∃ a, x = .ok a) ↔ ∀ row ∈ rows, ∀ e, ¬ row e := by
  constructor
  · rintro ⟨a, rfl⟩ row hmem e hrow
    obtain ⟨e', he'⟩ := Decides.exists_of_mem hmem hrow
    exact nomatch (h e').mpr he'
  · intro hnone
    cases x with
    | ok a => exact ⟨a, rfl⟩
    | error e =>
      obtain ⟨row, hmem, hrow⟩ := ((h e).mp rfl).mem
      exact absurd hrow (hnone row hmem e)

theorem bind (hx : FailsBy x rows) (hf : ∀ a, x = .ok a → FailsBy (f a) more) :
    FailsBy (x >>= f) (rows ++ more) := by
  intro e
  rw [Decides.append_iff]
  cases x with
  | error e' =>
    have hrows : ¬ ∀ row ∈ rows, ∀ e, ¬ row e := fun hnone => by
      obtain ⟨a, ha⟩ := hx.ok_iff.mpr hnone
      cases ha
    rw [or_iff_left fun h => hrows h.1, ← hx e, Except.error.injEq]
    exact Iff.of_eq (Except.error.injEq e' e)
  | ok a =>
    have hnone := hx.ok_iff.mp ⟨a, rfl⟩
    have hnot : ¬ Decides rows e := fun h => nomatch (hx e).mpr h
    rw [or_iff_right hnot, and_iff_right hnone]
    exact hf a rfl e

end FailsBy

end GzipStage
