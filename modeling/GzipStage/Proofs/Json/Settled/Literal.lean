import GzipStage.Proofs.Json.Success

/-! What follows a literal does not change how it is read, unless it is a number at the end of
the octets. -/
namespace GzipStage.Json

variable {α σ : Type} {s rest t : Bytes}

/-- Once octets are left, what a reader gives does not depend on what comes behind them. -/
def Settled (read : Bytes → Except Fault (α × Bytes)) : Prop :=
  ∀ s x rest t, read s = .ok (x, rest) → rest ≠ [] → read (s ++ t) = .ok (x, rest ++ t)

/-- What a reader gives does not depend on what comes behind it, even at the end of the octets. -/
def SelfDelimiting (read : Bytes → Except Fault (α × Bytes)) : Prop :=
  ∀ s x rest t, read s = .ok (x, rest) → read (s ++ t) = .ok (x, rest ++ t)

theorem SelfDelimiting.settled {read : Bytes → Except Fault (α × Bytes)}
    (h : SelfDelimiting read) : Settled read := fun s x rest t hread _ => h s x rest t hread

theorem skipBlanks_append_of_cons {b : UInt8} {tail : Bytes} (h : skipBlanks s = b :: tail)
    (t : Bytes) : skipBlanks (s ++ t) = b :: (tail ++ t) := by
  rw [skipBlanks, List.dropWhile_append, ← skipBlanks, h]
  rfl

/-! ### Literals -/

theorem readWord_settled {word : Bytes} (h : readWord word s = .ok rest) (t : Bytes) :
    readWord word (s ++ t) = .ok (rest ++ t) := by
  induction word generalizing s with
  | nil =>
    cases h
    rfl
  | cons w word ih =>
    cases s with
    | nil => cases h
    | cons b s =>
      rw [readWord] at h
      rw [List.cons_append, readWord]
      split at h
      case isTrue hw =>
        rw [if_pos hw]
        exact ih h
      case isFalse => cases h

namespace StringLiteral

theorem contents_settled {acc bytes : Bytes} {state : State}
    (h : contents acc state s = .ok (bytes, rest)) (t : Bytes) :
    contents acc state (s ++ t) = .ok (bytes, rest ++ t) := by
  induction s generalizing acc state with
  | nil => cases h
  | cons b s ih =>
    rw [contents] at h
    rw [List.cons_append, contents]
    split at h
    case isTrue hend =>
      cases h
      rw [if_pos hend]
    case isFalse hend =>
      rw [if_neg hend]
      cases hstep : step state b with
      | error cause => simp [hstep] at h
      | ok found =>
        simp only [hstep] at h ⊢
        exact ih h

theorem read_selfDelimiting : SelfDelimiting read := by
  intro s text rest t h
  rw [read, bind_ok_iff] at h
  obtain ⟨⟨bytes, tail⟩, hcontents, h⟩ := h
  rw [read, contents_settled hcontents, ok_bind]
  cases hdecode : Utf8.decode? bytes with
  | none => simp [hdecode] at h
  | some found =>
    simp only [hdecode] at h ⊢
    cases h
    rfl

end StringLiteral

namespace NumberLiteral

theorem takeDigits_settled {limit n count m k : Nat}
    (h : takeDigits limit n count s = (m, k, rest)) (hrest : rest ≠ []) (t : Bytes) :
    takeDigits limit n count (s ++ t) = (m, k, rest ++ t) := by
  induction s generalizing n count with
  | nil =>
    cases h
    exact absurd rfl hrest
  | cons b s ih =>
    simp only [takeDigits] at h
    simp only [List.cons_append, takeDigits]
    split at h
    case isTrue hdigit =>
      rw [if_pos hdigit]
      exact ih h
    case isFalse hdigit =>
      cases h
      rw [if_neg hdigit]
      rfl

theorem dropDigits_settled (h : dropDigits s ≠ []) (t : Bytes) :
    dropDigits (s ++ t) = dropDigits s ++ t := by
  rw [dropDigits, List.dropWhile_append, ← dropDigits, if_neg (by simpa using h)]

theorem digitNext_append (h : s ≠ []) (t : Bytes) : digitNext (s ++ t) = digitNext s := by
  cases s with
  | nil => exact absurd rfl h
  | cons b s => rfl

theorem float_settled {negative : Bool} {significand : Nat} {e : Int} {n : Number}
    (h : float negative significand e s = .ok (n, rest)) :
    rest = s ∧ ∀ t, float negative significand e (s ++ t) = .ok (n, s ++ t) := by
  unfold float at h ⊢
  split at h
  case h_1 f hf =>
    cases h
    exact ⟨rfl, fun _ => rfl⟩
  case h_2 => cases h

theorem exponentSign_append {b : UInt8} {tail : Bytes} {down : Bool}
    (h : exponentSign s = (down, b :: tail)) (t : Bytes) :
    exponentSign (s ++ t) = (down, b :: (tail ++ t)) := by
  cases s with
  | nil => cases h
  | cons c s =>
    simp only [exponentSign] at h
    simp only [List.cons_append, exponentSign]
    split
    case isTrue hplus =>
      rw [if_pos hplus] at h
      cases h
      rfl
    case isFalse hplus =>
      rw [if_neg hplus] at h
      split
      case isTrue hminus =>
        rw [if_pos hminus] at h
        cases h
        rfl
      case isFalse hminus =>
        rw [if_neg hminus] at h
        cases h
        rfl

theorem exponent_settled (negative : Bool) (significand : Nat) (e : Int) :
    Settled (exponent negative significand e) := by
  intro s n rest t h hrest
  rw [exponent] at h ⊢
  rcases hsign : exponentSign s with ⟨down, _ | ⟨b, s₁⟩⟩
  · simp [hsign] at h
  · rw [exponentSign_append hsign]
    simp only [hsign] at h ⊢
    split at h
    case isFalse => cases h
    case isTrue hb =>
      rw [if_pos hb]
      rcases htake : takeDigits exponentLimit (Octet.digitValue b) 0 s₁ with
        ⟨k, count, _ | ⟨c, more⟩⟩
      · simp only [htake, digitNext, Bool.false_eq_true, if_false] at h
        exact absurd (float_settled h).1 hrest
      · rw [takeDigits_settled htake (List.cons_ne_nil _ _)]
        simp only [htake, digitNext_append (List.cons_ne_nil c more)] at h ⊢
        split at h
        case isTrue hmore =>
          rw [if_pos hmore]
          split at h
          case isTrue => cases h
          case isFalse hrange =>
            rw [if_neg hrange]
            cases h
            rw [dropDigits_settled hrest]
        case isFalse hmore =>
          rw [if_neg hmore]
          obtain ⟨rfl, hfloat⟩ := float_settled h
          exact hfloat t

theorem exponentOr_settled {negative : Bool} {significand : Nat} {e : Int}
    {last : Bytes → Except Fault (Number × Bytes)}
    (hlast : ∀ s n rest, last s = .ok (n, rest) →
      rest = s ∧ ∀ t, last (s ++ t) = .ok (n, s ++ t)) :
    Settled fun s =>
      if exponentNext s then exponent negative significand e (s.drop 1) else last s := by
  intro s n rest t h hrest
  cases s with
  | nil => exact absurd (hlast [] n rest h).1 hrest
  | cons b s =>
    have hnext : exponentNext (b :: s ++ t) = exponentNext (b :: s) := rfl
    simp only [hnext] at h ⊢
    split at h
    case isTrue hb =>
      rw [if_pos hb]
      exact exponent_settled negative significand e s n rest t h hrest
    case isFalse hb =>
      rw [if_neg hb]
      obtain ⟨rfl, hmore⟩ := hlast (b :: s) n rest h
      exact hmore t

theorem fraction_settled (negative : Bool) (significand : Nat) (e : Int) :
    Settled (fraction negative significand e) := by
  intro s n rest t h hrest
  rw [fraction] at h ⊢
  rcases htake : takeDigits wordLimit significand 0 s with ⟨k, count, _ | ⟨c, more⟩⟩
  · simp only [htake] at h
    split at h
    case isTrue => cases h
    case isFalse => exact absurd (float_settled h).1 hrest
  · rw [takeDigits_settled htake (List.cons_ne_nil _ _)]
    simp only [htake, digitNext_append (List.cons_ne_nil c more)] at h ⊢
    split at h
    case isTrue => cases h
    case isFalse hdigit =>
      rw [if_neg hdigit]
      have hleft : dropDigits (c :: more) ≠ [] := by
        intro hnil
        rw [hnil] at h
        exact hrest (float_settled h).1
      rw [dropDigits_settled hleft]
      exact exponentOr_settled (fun _ _ _ => float_settled) _ n rest t h hrest

theorem ending_settled {negative : Bool} {n dropped : Nat} {m : Number}
    (h : (if dropped = 0 then .ok (integer negative n, s) else float negative n dropped s) =
      Except.ok (m, rest)) :
    rest = s ∧ ∀ t, (if dropped = 0 then .ok (integer negative n, s ++ t)
      else float negative n dropped (s ++ t)) = Except.ok (m, s ++ t) := by
  split at h
  case isTrue hzero =>
    cases h
    exact ⟨rfl, fun t => if_pos hzero⟩
  case isFalse hmany =>
    simpa only [if_neg hmany] using float_settled h

theorem ne_nil_of_afterInteger {negative : Bool} {n dropped : Nat} {m : Number}
    (h : afterInteger negative n dropped s = .ok (m, rest)) (hrest : rest ≠ []) : s ≠ [] := by
  rintro rfl
  exact hrest (ending_settled h).1

theorem afterInteger_settled (negative : Bool) (n dropped : Nat) :
    Settled (afterInteger negative n dropped) := by
  intro s m rest t h hrest
  obtain ⟨b, tail, rfl⟩ := List.exists_cons_of_ne_nil (ne_nil_of_afterInteger h hrest)
  have hhead : (b :: tail ++ t).head? = (b :: tail).head? := rfl
  rw [afterInteger] at h ⊢
  rw [hhead]
  split at h
  case isTrue hdot =>
    rw [if_pos hdot]
    exact fraction_settled negative n dropped tail m rest t h hrest
  case isFalse hdot =>
    rw [if_neg hdot]
    exact exponentOr_settled (fun _ _ _ => ending_settled) _ m rest t h hrest

theorem countDigits_append (h : dropDigits s ≠ []) (t : Bytes) :
    countDigits (s ++ t) = countDigits s := by
  have hsplit := congrArg List.length (s.takeWhile_append_dropWhile (p := Octet.isDigit))
  have hleft : 0 < (s.dropWhile Octet.isDigit).length := List.length_pos_iff.mpr h
  rw [List.length_append] at hsplit
  rw [countDigits, List.takeWhile_append, if_neg (by omega), countDigits]

theorem read_settled (negative : Bool) : Settled (read negative) := by
  intro s n rest t h hrest
  cases s with
  | nil => cases h
  | cons b s =>
    rw [read] at h
    rw [List.cons_append, read]
    split at h
    case isTrue hzero =>
      rw [if_pos hzero]
      split at h
      case isTrue => cases h
      case isFalse hdigit =>
        rw [digitNext_append (ne_nil_of_afterInteger h hrest), if_neg hdigit]
        exact afterInteger_settled negative 0 0 s n rest t h hrest
    case isFalse hzero =>
      rw [if_neg hzero]
      split at h
      case isFalse => cases h
      case isTrue hb =>
        rw [if_pos hb]
        rcases htake : takeDigits wordLimit (Octet.digitValue b) 0 s with ⟨m, count, more⟩
        simp only [htake] at h
        have hleft : dropDigits more ≠ [] := ne_nil_of_afterInteger h hrest
        have hmore : more ≠ [] := by
          rintro rfl
          exact hleft rfl
        rw [takeDigits_settled htake hmore]
        simp only [countDigits_append hleft, dropDigits_settled hleft]
        exact afterInteger_settled _ _ _ _ _ _ _ h hrest

end NumberLiteral

end GzipStage.Json
