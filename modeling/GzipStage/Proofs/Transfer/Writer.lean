import GzipStage.Transfer.Writer
import Mathlib.Tactic

/-! What a writer does to octets that are offered to it. -/
namespace GzipStage.Transfer.Writer

/-- No call goes wrong before `count` octets have been taken, with `events` to come. -/
def ServesBy (habit : Habit) : (events : List WriteEvent) → (count : Nat) → Prop
  | [], count => count = 0 ∨
    match habit with
    | .take none => True
    | .take (some piece) => 0 < piece
    | .fault _ => False
  | .take total piece :: events, count =>
    count = 0 ∨ 0 < total ∧ 0 < piece ∧ ServesBy habit events (count - total)
  | .fault _ :: _, count => count = 0

/-- No call fails or takes nothing before `count` octets have been taken. -/
def Serves (w : Writer) (count : Nat) : Prop := ServesBy w.habit w.events count

theorem serves_zero (w : Writer) : w.Serves 0 := by
  unfold Serves
  match w.events with
  | [] => exact .inl rfl
  | .take _ _ :: _ => exact .inl rfl
  | .fault _ :: _ => rfl

/-- `after` is the writer `before` once it has taken `octets`: it has them behind what it had,
and it serves what `before` would have served after them. -/
structure Took (before : Writer) (octets : Bytes) (after : Writer) : Prop where
  accepted : after.accepted.toList = before.accepted.toList ++ octets
  flush : after.flush = before.flush
  serves : ∀ count, before.Serves count → after.Serves (count - octets.length)

theorem Took.refl (w : Writer) : w.Took [] w := ⟨by simp, rfl, fun _ h => h⟩

theorem Took.trans {a b c : Writer} {first second : Bytes} (h : a.Took first b)
    (h' : b.Took second c) : a.Took (first ++ second) c where
  accepted := by rw [h'.accepted, h.accepted, List.append_assoc]
  flush := h'.flush.trans h.flush
  serves count hcount := by
    rw [List.length_append, ← Nat.sub_sub]
    exact h'.serves _ (h.serves count hcount)

theorem take_served {w : Writer} {piece : Bytes} {count : Nat} (hpiece : 0 < piece.length)
    (h : w.Serves (count - piece.length)) :
    ∃ n, (w.take piece).1 = .ok (n + 1) ∧ (w.take piece).2.Serves (count - (n + 1)) := by
  refine ⟨piece.length - 1, ?_, ?_⟩
  · rw [Nat.sub_add_cancel hpiece]
    rfl
  · rw [Nat.sub_add_cancel hpiece]
    exact h

theorem Serves.write {w : Writer} {octets : Bytes} {count : Nat} (h : w.Serves count)
    (hcount : count ≠ 0) (hnil : octets ≠ []) :
    ∃ n, (w.write octets).1 = .ok (n + 1) ∧ (w.write octets).2.Serves (count - (n + 1)) := by
  have hpos : 0 < octets.length := List.length_pos_iff.mpr hnil
  unfold Serves at h
  unfold Writer.write
  match hevents : w.events with
  | [] =>
    rw [hevents] at h
    replace h := h.resolve_left hcount
    have hserves (left : Nat) : w.Serves left := by
      rw [Serves, hevents]
      exact .inr h
    match hhabit : w.habit with
    | .take none => exact take_served hpos (hserves _)
    | .take (some piece) =>
      rw [hhabit] at h
      have hpiece : 0 < piece := h
      apply take_served _ (hserves _)
      rw [List.length_take]
      omega
    | .fault f =>
      rw [hhabit] at h
      exact h.elim
  | .take total piece :: events =>
    rw [hevents] at h
    obtain ⟨htotal, hpiece, hmore⟩ := h.resolve_left hcount
    have hlen : (octets.take (min total piece)).length = min (min total piece) octets.length :=
      List.length_take
    apply take_served
    · omega
    · simp only [Serves]
      split
      next hleft =>
        rwa [show (octets.take (min total piece)).length = total by omega]
      next hleft =>
        refine .inr ⟨by omega, hpiece, ?_⟩
        rwa [show count - (octets.take (min total piece)).length -
          (total - (octets.take (min total piece)).length) = count - total by omega]
  | .fault f :: events =>
    rw [hevents] at h
    exact (hcount h).elim

/-- How many octets the answer to a call says were taken. -/
def countOf : Except IoError Nat → Nat
  | .ok n => n
  | .error _ => 0

theorem write_accepted (w : Writer) (octets : Bytes) :
    countOf (w.write octets).1 ≤ octets.length ∧
      (w.write octets).2.accepted.toList =
        w.accepted.toList ++ octets.take (countOf (w.write octets).1) ∧
      (w.write octets).2.flush = w.flush := by
  have htake (v : Writer) (n : Nat) (hv : v.accepted = w.accepted) (hf : v.flush = w.flush) :
      countOf (v.take (octets.take n)).1 ≤ octets.length ∧
        (v.take (octets.take n)).2.accepted.toList =
          w.accepted.toList ++ octets.take (countOf (v.take (octets.take n)).1) ∧
        (v.take (octets.take n)).2.flush = w.flush := by
    refine ⟨?_, ?_, hf⟩
    · simp only [take, countOf, List.length_take]
      omega
    · simp [take, countOf, hv]
  have hfail (v : Writer) (f : WriteFault) (hv : v.accepted = w.accepted)
      (hf : v.flush = w.flush) :
      countOf (v.fail f).1 ≤ octets.length ∧
        (v.fail f).2.accepted.toList =
          w.accepted.toList ++ octets.take (countOf (v.fail f).1) ∧
        (v.fail f).2.flush = w.flush := by
    cases f <;> exact ⟨Nat.zero_le _, by simp [fail, countOf, hv], hf⟩
  unfold write
  cases w.events with
  | nil =>
    cases w.habit with
    | take piece =>
      cases piece with
      | none => simpa using htake w octets.length rfl rfl
      | some piece => exact htake w piece rfl rfl
    | fault f => exact hfail w f rfl rfl
  | cons event events =>
    cases event with
    | take total piece => exact htake _ _ rfl rfl
    | fault f => exact hfail _ f rfl rfl

theorem write_took (w : Writer) {octets : Bytes} (hnil : octets ≠ []) :
    w.Took (octets.take (countOf (w.write octets).1)) (w.write octets).2 := by
  obtain ⟨hle, haccepted, hflush⟩ := w.write_accepted octets
  refine ⟨haccepted, hflush, fun count h => ?_⟩
  rw [List.length_take, Nat.min_eq_left hle]
  by_cases hcount : count = 0
  · rw [hcount, Nat.zero_sub]
    exact serves_zero _
  · obtain ⟨n, hanswer, hserves⟩ := h.write hcount hnil
    rwa [hanswer]

/-- Whatever comes of offering octets, those not handed back have been taken, and only a failure
leaves octets over. -/
theorem drain_took (fuel : Nat) (w : Writer) (octets : Bytes) (hfuel : octets.length ≤ fuel) :
    ∃ taken, octets = taken ++ (w.drain fuel octets).2.1 ∧
      w.Took taken (w.drain fuel octets).2.2 ∧
      ((w.drain fuel octets).1 = none ↔ (w.drain fuel octets).2.1 = []) := by
  induction fuel generalizing w octets with
  | zero =>
    obtain rfl := List.eq_nil_of_length_eq_zero (Nat.le_zero.mp hfuel)
    exact ⟨[], rfl, Took.refl w, by simp [drain]⟩
  | succ fuel ih =>
    by_cases hnil : octets = []
    · subst hnil
      exact ⟨[], by simp [drain], by simpa [drain] using Took.refl w, by simp [drain]⟩
    · have hle := (w.write_accepted octets).1
      have htook := w.write_took hnil
      simp only [drain, if_neg hnil]
      match hwrite : w.write octets with
      | (.error e, v) =>
        simp only [hwrite, countOf, List.take_zero] at htook
        exact ⟨[], rfl, htook, by simp [hnil]⟩
      | (.ok 0, v) =>
        simp only [hwrite, countOf, List.take_zero] at htook
        exact ⟨[], rfl, htook, by simp [hnil]⟩
      | (.ok (n + 1), v) =>
        simp only [hwrite, countOf] at hle htook
        obtain ⟨taken, hrest, hmore, hfault⟩ := ih v (octets.drop (n + 1))
          (by rw [List.length_drop]; omega)
        refine ⟨octets.take (n + 1) ++ taken, ?_, htook.trans hmore, hfault⟩
        change octets = octets.take (n + 1) ++ taken ++ (v.drain fuel (octets.drop (n + 1))).2.1
        rw [List.append_assoc, ← hrest, List.take_append_drop]

theorem writeAll_took (w : Writer) (octets : Bytes) :
    ∃ taken, octets = taken ++ (w.writeAll octets).2.1 ∧
      w.Took taken (w.writeAll octets).2.2 ∧
      ((w.writeAll octets).1 = none ↔ (w.writeAll octets).2.1 = []) :=
  drain_took octets.length w octets le_rfl

theorem Serves.drain {w : Writer} {octets : Bytes} {count : Nat} (h : w.Serves count)
    (hle : octets.length ≤ count) {fuel : Nat} (hfuel : octets.length ≤ fuel) :
    (w.drain fuel octets).1 = none := by
  induction fuel generalizing w octets count with
  | zero =>
    obtain rfl := List.eq_nil_of_length_eq_zero (Nat.le_zero.mp hfuel)
    simp [Writer.drain]
  | succ fuel ih =>
    by_cases hnil : octets = []
    · simp [Writer.drain, hnil]
    · have hpos : 0 < octets.length := List.length_pos_iff.mpr hnil
      obtain ⟨n, hanswer, hserves⟩ := h.write (by omega) hnil
      match hwrite : w.write octets with
      | (.error e, v) => simp [hwrite] at hanswer
      | (.ok m, v) =>
        obtain rfl : m = n + 1 := by simpa [hwrite] using hanswer
        rw [hwrite] at hserves
        simp only [Writer.drain, if_neg hnil, hwrite]
        apply ih hserves <;> rw [List.length_drop] <;> omega

theorem Serves.writeAll {w : Writer} {octets : Bytes} {count : Nat} (h : w.Serves count)
    (hle : octets.length ≤ count) : (w.writeAll octets).1 = none :=
  h.drain hle le_rfl

/-- What comes of offering octets, and others after them, up to the first call that goes wrong and
is not repeated. -/
inductive Wrote : Writer → Option IoError → Writer → Prop
  | all (w : Writer) (octets : Bytes) : Wrote w (w.writeAll octets).1 (w.writeAll octets).2.2
  | andThen {w v u : Writer} {fault : Option IoError} (hfirst : Wrote w none v)
      (hmore : Wrote v fault u) : Wrote w fault u
  | again {w v u : Writer} {e : IoError} {fault : Option IoError} (hfirst : Wrote w (some e) v)
      (hagain : e.isInterrupted = true) (hmore : Wrote v fault u) : Wrote w fault u

theorem Wrote.refl (w : Writer) : w.Wrote none w := .all w []

end GzipStage.Transfer.Writer
