import GzipStage.Proofs.Json.Success

/-! What is read fits its document. -/
namespace GzipStage.Json

variable {α σ : Type} {s rest : Bytes} {levels fuel : Nat}

/-! ### Numbers -/

def Number.InRange : Number → Prop
  | .integer n => -0x8000000000000000 ≤ n ∧ n ≤ 0xffffffffffffffff
  | .float _ => True

namespace NumberLiteral

variable {negative : Bool} {significand n dropped : Nat} {e : Int} {x : Number}

theorem float_inRange (h : float negative significand e s = .ok (x, rest)) : x.InRange := by
  rw [float] at h
  split at h
  case h_1 =>
    cases h
    trivial
  case h_2 => cases h

theorem exponent_inRange (h : exponent negative significand e s = .ok (x, rest)) :
    x.InRange := by
  simp only [exponent] at h
  split at h
  case h_1 => cases h
  case h_2 =>
    split at h
    case isFalse => cases h
    case isTrue =>
      split at h
      case isFalse => exact float_inRange h
      case isTrue =>
        split at h
        case isTrue => cases h
        case isFalse =>
          cases h
          trivial

theorem fraction_inRange (h : fraction negative significand e s = .ok (x, rest)) :
    x.InRange := by
  simp only [fraction] at h
  split_ifs at h
  · exact exponent_inRange h
  · exact float_inRange h

theorem integer_inRange (hn : n < wordLimit) : (integer negative n).InRange := by
  rw [wordLimit] at hn
  unfold integer
  split_ifs with hnegative hsize
  · rw [Bool.and_eq_true, decide_eq_true_eq, decide_eq_true_eq, leastSize] at hsize
    exact ⟨by omega, by omega⟩
  · trivial
  · exact ⟨by omega, by omega⟩

theorem afterInteger_inRange (hn : n < wordLimit)
    (h : afterInteger negative n dropped s = .ok (x, rest)) : x.InRange := by
  rw [afterInteger] at h
  split_ifs at h
  · exact fraction_inRange h
  · exact exponent_inRange h
  · cases h
    exact integer_inRange hn
  · exact float_inRange h

theorem takeDigits_lt {limit count : Nat} (hn : n < limit) :
    (takeDigits limit n count s).1 < limit := by
  induction s generalizing n count with
  | nil => exact hn
  | cons b s ih =>
    simp only [takeDigits]
    split
    case isTrue hdigit =>
      rw [Bool.and_eq_true, decide_eq_true_eq] at hdigit
      exact ih hdigit.2
    case isFalse => exact hn

theorem read_inRange (h : read negative s = .ok (x, rest)) : x.InRange := by
  cases s with
  | nil => cases h
  | cons b s =>
    rw [read] at h
    split_ifs at h with _ _ hdigit
    · exact afterInteger_inRange (by decide) h
    · refine afterInteger_inRange (takeDigits_lt ?_) h
      exact Nat.lt_trans (Octet.digitValue_lt hdigit) (by decide)

end NumberLiteral

/-! ### Loops -/

theorem items_forall {read : Bytes → Except Fault (α × Bytes)} {P : α → Prop}
    (hread : ∀ s x rest, read s = .ok (x, rest) → P x) {acc xs : List α} (hacc : ∀ x ∈ acc, P x)
    (h : items read fuel acc s = .ok (xs, rest)) : ∀ x ∈ xs, P x := by
  induction fuel generalizing acc s with
  | zero => cases h
  | succ fuel ih =>
    rcases items_ok_iff.mp h with ⟨_, rfl, rfl⟩ | ⟨s₁, x, s₂, _, hx, h⟩
    · exact hacc
    · exact ih (List.forall_mem_cons.mpr ⟨hread s₁ x s₂ hx, hacc⟩) h

theorem members_keep {read : String → σ → Bytes → Except Fault (σ × Bytes)} {P : σ → Prop}
    (hread : ∀ name x s y rest, read name x s = .ok (y, rest) → P x → P y) {first : Bool}
    {x z : σ} (hx : P x) (h : members read fuel first x s = .ok (z, rest)) : P z := by
  induction fuel generalizing first x s with
  | zero => cases h
  | succ fuel ih =>
    rcases members_ok_iff.mp h with ⟨_, rfl, rfl⟩ | ⟨name, s₁, y, s₂, _, hy, h⟩
    · exact hx
    · exact ih (hread name x s₁ y s₂ hy hx) h

theorem positional_keeps {P : σ → Prop} {fields : List (Field σ)}
    (hfields : ∀ field ∈ fields, ∀ x s y rest, field.read levels x s = .ok (y, rest) → P x → P y)
    {first : Bool} {x z : σ} (hx : P x)
    (h : Record.positional levels fields first x s = .ok (z, rest)) : P z := by
  induction fields generalizing first x s with
  | nil =>
    cases h
    exact hx
  | cons field fields ih =>
    rcases positional_ok_iff.mp h with ⟨_, rfl, rfl⟩ | ⟨s₁, y, s₂, _, hy, h⟩
    · exact hx
    · have hmore := fun f hf => hfields f (List.mem_cons_of_mem field hf)
      exact ih hmore (hfields field List.mem_cons_self x s₁ y s₂ hy hx) h

theorem record_keeps {P : σ → Prop} {name : String} {fields : List (Field σ)} {initial x : σ}
    (hfields : ∀ field ∈ fields, ∀ x s y rest, field.read levels x s = .ok (y, rest) → P x → P y)
    (hinitial : P initial) (h : record name fields initial (levels + 1) s = .ok (x, rest)) :
    P x := by
  obtain ⟨_, hbelow, h⟩ := record_ok_iff.mp h
  cases hbelow
  rcases h with ⟨_, _, _, h, _⟩ | ⟨_, seen, _, _, h, _⟩
  · exact positional_keeps hfields hinitial h
  · refine members_keep (P := fun state : σ × List String => P state.1) ?_ hinitial h
    rintro name ⟨x, seen⟩ s ⟨y, seen'⟩ rest hmember hx
    rcases member_ok_iff.mp hmember with ⟨_, _, _, _, rfl, _⟩ | ⟨field, hfind, _, _, _, hread, _⟩
    · exact hx
    · exact hfields field (List.mem_of_find?_eq_some hfind) x _ y rest hread hx

/-! ### Values -/

/-- No number in the value is a double. -/
inductive Value.FloatFree : Value → Prop
  | null : Value.null.FloatFree
  | bool (b : Bool) : (Value.bool b).FloatFree
  | integer (n : Int) : (Value.number (.integer n)).FloatFree
  | string (t : String) : (Value.string t).FloatFree
  | list {vs : List Value} (hitems : ∀ v ∈ vs, v.FloatFree) : (Value.array vs).FloatFree
  | object {ms : Members} (hvalues : ∀ m ∈ ms, m.2.FloatFree) : (Value.object ms).FloatFree

theorem memberMap_fits {read : Bytes → Except Fault (Value × Bytes)} {ms : Members}
    (hread : ∀ s v rest, read s = .ok (v, rest) → v.FloatFree → v.Fits levels)
    (h : memberMap read s = .ok (ms, rest)) (hfree : ∀ m ∈ ms, m.2.FloatFree) :
    (Value.object ms).Fits (levels + 1) := by
  obtain ⟨s₁, h, _⟩ := memberMap_ok_iff.mp h
  have hkept : ms.Ordered ∧ ∀ m ∈ ms, m.2.FloatFree → m.2.Fits levels := by
    refine members_keep (P := fun ms : Members => ms.Ordered ∧
      ∀ m ∈ ms, m.2.FloatFree → m.2.Fits levels) ?_ ⟨.nil, List.forall_mem_nil _⟩ h
    rintro name ms s ms' rest hmember ⟨hordered, hvalues⟩
    simp only [readInto, bind_ok_iff, Prod.exists, Except.ok.injEq, Prod.mk.injEq] at hmember
    obtain ⟨s₂, _, v, s₃, hv, rfl, _⟩ := hmember
    refine ⟨Members.insert_ordered v hordered, fun m hm => ?_⟩
    rcases Members.mem_insert hm with rfl | hm
    · exact hread s₂ v s₃ hv
    · exact hvalues m hm
  exact .object hkept.1 fun m hm => hkept.2 m hm (hfree m hm)

theorem scalar_fits {b : UInt8} {v : Value} (h : scalar b s = .ok (v, rest))
    (hfree : v.FloatFree) : v.Fits levels := by
  have hnumber {n : Number} (hn : n.InRange) (hfree : (Value.number n).FloatFree) :
      (Value.number n).Fits levels := by
    cases hfree with
    | integer n => exact .integer hn.1 hn.2
  unfold scalar at h
  split_ifs at h
  all_goals
    simp only [bind_ok_iff, Prod.exists, pure, Except.pure, Except.ok.injEq, Prod.mk.injEq] at h
  · obtain ⟨_, _, rfl, _⟩ := h
    exact .null
  · obtain ⟨_, _, rfl, _⟩ := h
    exact .bool true
  · obtain ⟨_, _, rfl, _⟩ := h
    exact .bool false
  · obtain ⟨n, _, hn, rfl, _⟩ := h
    exact hnumber (NumberLiteral.read_inRange hn) hfree
  · obtain ⟨n, _, hn, rfl, _⟩ := h
    exact hnumber (NumberLiteral.read_inRange hn) hfree
  · obtain ⟨t, _, _, rfl, _⟩ := h
    exact .string t

/-- A value that is read fits the levels it was given, doubles apart. -/
theorem value_fits {v : Value} (h : value levels s = .ok (v, rest)) (hfree : v.FloatFree) :
    v.Fits levels := by
  -- Along the levels, which fall where a list or an object opens.
  induction levels using Nat.strongRecOn generalizing s v rest with
  | ind levels ih =>
    rw [value_ok_iff] at h
    rcases h with ⟨below, _, xs, _, rfl, _, h, _, rfl⟩ | ⟨below, _, ms, rfl, _, h, rfl⟩ |
      ⟨_, _, _, _, _, h⟩
    · cases hfree with
      | list hitems =>
        have hfits := items_forall (P := fun v => v.FloatFree → v.Fits below)
          (fun _ _ _ => ih below (Nat.lt_succ_self below)) (List.forall_mem_nil _) h
        exact .list fun v hv => hfits v (List.mem_reverse.mp hv) (hitems v hv)
    · cases hfree with
      | object hvalues =>
        exact memberMap_fits (fun _ _ _ => ih below (Nat.lt_succ_self below)) h hvalues
    · exact scalar_fits h hfree

theorem map_fits {ms : Members} (h : map levels s = .ok (ms, rest))
    (hfree : ∀ m ∈ ms, m.2.FloatFree) : (Value.object ms).Fits levels := by
  obtain ⟨below, _, rfl, _, h⟩ := map_ok_iff.mp h
  exact memberMap_fits (fun _ _ _ => value_fits) h hfree

end GzipStage.Json
