import GzipStage.Proofs.Json.Settled.Literal

/-! What follows a value that is passed over does not change where it ends. -/
namespace GzipStage.Json

variable {s rest : Bytes}

namespace Skip

theorem string_settled {state : State} (h : string state s = .ok rest) (t : Bytes) :
    string state (s ++ t) = .ok (rest ++ t) := by
  induction s generalizing state with
  | nil => cases h
  | cons b s ih =>
    cases state with
    | plain =>
      simp only [List.cons_append, string] at h ⊢
      split_ifs at h ⊢
      · cases h
        rfl
      · exact ih h
      · exact ih h
    | escape =>
      simp only [List.cons_append, string] at h ⊢
      split_ifs at h ⊢
      · exact ih h
      · exact ih h
    | digits owed valid =>
      simp only [List.cons_append, string] at h ⊢
      split_ifs at h ⊢
      · exact ih h
      · exact ih h

theorem exponent_settled (h : exponent s = .ok rest) (hrest : rest ≠ []) (t : Bytes) :
    exponent (s ++ t) = .ok (rest ++ t) := by
  rw [exponent] at h ⊢
  rcases hsign : NumberLiteral.exponentSign s with ⟨down, _ | ⟨b, s₁⟩⟩
  · simp [hsign] at h
  · rw [NumberLiteral.exponentSign_append hsign]
    simp only [hsign] at h ⊢
    split_ifs at h ⊢
    cases h
    rw [NumberLiteral.dropDigits_settled hrest]

theorem exponentOr_settled
    (h : (if NumberLiteral.exponentNext s then exponent (s.drop 1) else .ok s) = .ok rest)
    (hrest : rest ≠ []) (t : Bytes) :
    (if NumberLiteral.exponentNext (s ++ t) then exponent ((s ++ t).drop 1) else .ok (s ++ t)) =
      .ok (rest ++ t) := by
  cases s with
  | nil =>
    cases h
    exact absurd rfl hrest
  | cons b s =>
    have hnext : NumberLiteral.exponentNext (b :: s ++ t) = NumberLiteral.exponentNext (b :: s) :=
      rfl
    rw [hnext]
    split_ifs at h ⊢
    · exact exponent_settled h hrest t
    · cases h
      rfl

theorem afterInteger_settled (h : afterInteger s = .ok rest) (hrest : rest ≠ []) (t : Bytes) :
    afterInteger (s ++ t) = .ok (rest ++ t) := by
  cases s with
  | nil =>
    cases h
    exact absurd rfl hrest
  | cons b s =>
    have hhead : (b :: s ++ t).head? = (b :: s).head? := rfl
    rw [afterInteger] at h ⊢
    rw [hhead]
    split at h
    case isTrue hdot =>
      rw [if_pos hdot]
      simp only [List.drop_succ_cons, List.drop_zero, List.cons_append] at h ⊢
      cases s with
      | nil => cases h
      | cons c s =>
        rw [NumberLiteral.digitNext_append (List.cons_ne_nil _ _)]
        split at h
        case isTrue => cases h
        case isFalse hdigit =>
          rw [if_neg hdigit]
          have hleft : NumberLiteral.dropDigits (c :: s) ≠ [] := by
            intro hnil
            rw [hnil] at h
            exact hrest (Except.ok.inj h).symm
          rw [NumberLiteral.dropDigits_settled hleft]
          exact exponentOr_settled h hrest t
    case isFalse hdot =>
      rw [if_neg hdot]
      exact exponentOr_settled h hrest t

theorem ne_nil_of_afterInteger (h : afterInteger s = .ok rest) (hrest : rest ≠ []) : s ≠ [] := by
  rintro rfl
  exact hrest (Except.ok.inj h).symm

theorem number_settled (h : number s = .ok rest) (hrest : rest ≠ []) (t : Bytes) :
    number (s ++ t) = .ok (rest ++ t) := by
  cases s with
  | nil => cases h
  | cons b s =>
    rw [number] at h
    rw [List.cons_append, number]
    split at h
    case isTrue hzero =>
      rw [if_pos hzero]
      split at h
      case isTrue => cases h
      case isFalse hdigit =>
        rw [NumberLiteral.digitNext_append (ne_nil_of_afterInteger h hrest), if_neg hdigit]
        exact afterInteger_settled h hrest t
    case isFalse hzero =>
      rw [if_neg hzero]
      split at h
      case isTrue hb =>
        rw [if_pos hb, NumberLiteral.dropDigits_settled (ne_nil_of_afterInteger h hrest)]
        exact afterInteger_settled h hrest t
      case isFalse => cases h

theorem scalar_settled {b : UInt8} (h : scalar b s = .ok rest) (hrest : rest ≠ []) (t : Bytes) :
    scalar b (s ++ t) = .ok (rest ++ t) := by
  unfold scalar at h ⊢
  split_ifs at h ⊢
  · exact readWord_settled h t
  · exact readWord_settled h t
  · exact readWord_settled h t
  · exact number_settled h hrest t
  · exact number_settled h hrest t
  · exact string_settled h t

theorem item_settled {bracket : Bracket} (h : item bracket s = .ok rest) (t : Bytes) :
    item bracket (s ++ t) = .ok (rest ++ t) := by
  cases bracket with
  | list =>
    cases h
    rfl
  | object =>
    rw [item] at h ⊢
    cases hs : skipBlanks s with
    | nil => simp [hs] at h
    | cons b s₁ =>
      rw [skipBlanks_append_of_cons hs]
      simp only [hs] at h ⊢
      split at h
      case isFalse => cases h
      case isTrue hquote =>
        rw [if_pos hquote]
        obtain ⟨s₂, hstring, h⟩ := bind_ok_iff.mp h
        rw [string_settled hstring, ok_bind]
        cases hs₂ : skipBlanks s₂ with
        | nil => simp [hs₂] at h
        | cons c s₃ =>
          rw [skipBlanks_append_of_cons hs₂]
          simp only [hs₂] at h ⊢
          split_ifs at h ⊢
          cases h
          rfl

variable {stack stack' : List Bracket} {place : Place}

theorem enter_settled {bracket : Bracket} (h : enter bracket stack s = .ok (place, stack', rest))
    (t : Bytes) : enter bracket stack (s ++ t) = .ok (place, stack', rest ++ t) := by
  rw [enter] at h ⊢
  cases hs : skipBlanks s with
  | nil => simp [hs] at h
  | cons b s₁ =>
    rw [skipBlanks_append_of_cons hs]
    simp only [hs] at h ⊢
    split_ifs at h ⊢
    · cases h
      rfl
    · obtain ⟨s₂, hitem, h⟩ := bind_ok_iff.mp h
      cases h
      rw [← List.cons_append, item_settled hitem, ok_bind]

theorem begin_settled (h : begin stack s = .ok (place, stack', rest)) (hrest : rest ≠ [])
    (t : Bytes) : begin stack (s ++ t) = .ok (place, stack', rest ++ t) := by
  rw [begin] at h ⊢
  cases hs : skipBlanks s with
  | nil => simp [hs] at h
  | cons b s₁ =>
    rw [skipBlanks_append_of_cons hs]
    simp only [hs] at h ⊢
    split_ifs at h ⊢
    · exact enter_settled h t
    · exact enter_settled h t
    · obtain ⟨s₂, hscalar, h⟩ := bind_ok_iff.mp h
      cases h
      rw [scalar_settled hscalar hrest, ok_bind]

theorem next_settled {bracket : Bracket} (h : next bracket stack s = .ok (place, stack', rest))
    (t : Bytes) : next bracket stack (s ++ t) = .ok (place, stack', rest ++ t) := by
  rw [next] at h ⊢
  cases hs : skipBlanks s with
  | nil => simp [hs] at h
  | cons b s₁ =>
    rw [skipBlanks_append_of_cons hs]
    simp only [hs] at h ⊢
    split_ifs at h ⊢
    · obtain ⟨s₂, hitem, h⟩ := bind_ok_iff.mp h
      cases h
      rw [item_settled hitem, ok_bind]
    · cases h
      rfl

theorem walk_nil {fuel : Nat} (h : walk fuel place stack [] = .ok rest) : rest = [] := by
  cases fuel with
  | zero => cases h
  | succ fuel =>
    cases place with
    | value => cases h
    | ended =>
      cases stack with
      | nil => exact (Except.ok.inj h).symm
      | cons bracket stack => cases h

theorem walk_settled {fuel more : Nat} (h : walk fuel place stack s = .ok rest)
    (hrest : rest ≠ []) (hmore : fuel ≤ more) (t : Bytes) :
    walk more place stack (s ++ t) = .ok (rest ++ t) := by
  induction fuel generalizing more place stack s with
  | zero => cases h
  | succ fuel ih =>
    obtain ⟨more, rfl⟩ := Nat.exists_eq_add_one_of_ne_zero (Nat.ne_zero_of_lt hmore)
    have hmore' : fuel ≤ more := Nat.le_of_succ_le_succ hmore
    cases place with
    | value =>
      obtain ⟨⟨place, stack, s₁⟩, hbegin, h⟩ := bind_ok_iff.mp h
      -- A number that ended with the octets could go on, but then the walk would have ended too.
      have hs₁ : s₁ ≠ [] := by
        rintro rfl
        exact hrest (walk_nil h)
      rw [walk, begin_settled hbegin hs₁, ok_bind]
      exact ih h hmore'
    | ended =>
      cases stack with
      | nil =>
        cases h
        rfl
      | cons bracket stack =>
        obtain ⟨⟨place, stack, s₁⟩, hnext, h⟩ := bind_ok_iff.mp h
        rw [walk, next_settled hnext, ok_bind]
        exact ih h hmore'

theorem value_settled (h : value s = .ok rest) (hrest : rest ≠ []) (t : Bytes) :
    value (s ++ t) = .ok (rest ++ t) := by
  refine walk_settled h hrest ?_ t
  simp

end Skip

end GzipStage.Json
