import GzipStage.Proofs.Transfer.Encoder

/-! A writer without its interruptions does what it would have done, only that the calls which are
interrupted are not made. -/
namespace GzipStage.Transfer

def WriteEvent.interruption? : WriteEvent → Option IoError
  | .fault (.refuse e) => if e.isInterrupted then some e else none
  | _ => none

/-- The interruption that a call is answered with. -/
def interruptionIn : Except IoError Nat → Option IoError
  | .error e => if e.isInterrupted then some e else none
  | .ok _ => none

namespace Writer

def interruptions (w : Writer) : List IoError := w.events.filterMap WriteEvent.interruption?

/-- The writer without its interruptions. -/
def calm (w : Writer) : Writer :=
  { w with events := w.events.filter fun event => event.interruption?.isNone }

/-- Only finitely many calls are interrupted. -/
def Settles (w : Writer) : Prop :=
  ∀ e, w.habit = .fault (.refuse e) → e.isInterrupted = false

variable {w v : Writer} {octets : Bytes}

theorem interruptions_length_le (w : Writer) : w.interruptions.length ≤ w.events.length :=
  List.length_filterMap_le _ _

theorem Settles.of_habit (h : w.Settles) (hhabit : v.habit = w.habit) : v.Settles := by
  intro e he
  exact h e (hhabit ▸ he)

theorem write_habit (w : Writer) (octets : Bytes) : (w.write octets).2.habit = w.habit := by
  obtain ⟨events, habit, flush, accepted⟩ := w
  match events, habit with
  | [], .take none => rfl
  | [], .take (some piece) => rfl
  | [], .fault (.refuse e) => rfl
  | [], .fault .stall => rfl
  | .take total piece :: events, habit => rfl
  | .fault (.refuse e) :: events, habit => rfl
  | .fault .stall :: events, habit => rfl

/-- A call is interrupted, or the writer without its interruptions answers it in the same way. -/
theorem Settles.write (h : w.Settles) (octets : Bytes) :
    (interruptionIn (w.write octets).1 = none ∧
        (w.write octets).2.interruptions = w.interruptions ∧
        w.calm.write octets = ((w.write octets).1, (w.write octets).2.calm)) ∨
      ∃ e v, w.write octets = (.error e, v) ∧ e.isInterrupted = true ∧
        w.interruptions = e :: v.interruptions ∧ v.calm = w.calm := by
  obtain ⟨events, habit, flush, accepted⟩ := w
  match events, habit with
  | [], .take none => exact .inl ⟨rfl, rfl, rfl⟩
  | [], .take (some piece) => exact .inl ⟨rfl, rfl, rfl⟩
  | [], .fault .stall => exact .inl ⟨rfl, rfl, rfl⟩
  | [], .fault (.refuse e) =>
    have he : e.isInterrupted = false := h e rfl
    exact .inl ⟨by simp [Writer.write, fail, interruptionIn, he], rfl, rfl⟩
  | .take total piece :: events, habit =>
    left
    refine ⟨rfl, ?_, ?_⟩
    · simp only [Writer.write, Writer.take, interruptions]
      split
      · rfl
      · rfl
    · have hfilter (event : WriteEvent) (hevent : event.interruption?.isNone = true) :
          (event :: events).filter (fun event => event.interruption?.isNone) =
            event :: events.filter fun event => event.interruption?.isNone :=
        List.filter_cons_of_pos hevent
      simp only [Writer.write, Writer.take, calm, hfilter (.take _ _) rfl]
      split
      · rfl
      · rw [hfilter _ rfl]
  | .fault .stall :: events, habit => exact .inl ⟨rfl, rfl, rfl⟩
  | .fault (.refuse e) :: events, habit =>
    cases he : e.isInterrupted with
    | true =>
      refine .inr ⟨e, ⟨events, habit, flush, accepted⟩, rfl, he, ?_, ?_⟩
      · simp [interruptions, WriteEvent.interruption?, he]
      · simp [calm, WriteEvent.interruption?, he]
    | false =>
      left
      refine ⟨?_, ?_, ?_⟩
      · simp [Writer.write, fail, interruptionIn, he]
      · simp [Writer.write, fail, interruptions, WriteEvent.interruption?, he]
      · simp [Writer.write, fail, calm, WriteEvent.interruption?, he]

theorem drain_fuel {fuel fuel' : Nat} (w : Writer) (octets : Bytes) (hfuel : octets.length ≤ fuel)
    (hfuel' : octets.length ≤ fuel') : w.drain fuel octets = w.drain fuel' octets := by
  induction fuel generalizing fuel' w octets with
  | zero =>
    obtain rfl := List.eq_nil_of_length_eq_zero (Nat.le_zero.mp hfuel)
    cases fuel' <;> simp [drain]
  | succ fuel ih =>
    by_cases hnil : octets = []
    · cases fuel' <;> simp [drain, hnil]
    · cases fuel' with
      | zero => exact absurd (List.eq_nil_of_length_eq_zero (Nat.le_zero.mp hfuel')) hnil
      | succ fuel' =>
        unfold drain
        rw [if_neg hnil, if_neg hnil]
        rcases w.write octets with ⟨e | _ | n, v⟩
        · rfl
        · rfl
        · apply ih <;> rw [List.length_drop] <;> omega

theorem writeAll_eq (hnil : octets ≠ []) :
    w.writeAll octets = match w.write octets with
      | (.error e, w) => (some e, octets, w)
      | (.ok 0, w) => (some .writeZero, octets, w)
      | (.ok (n + 1), w) => w.writeAll (octets.drop (n + 1)) := by
  obtain ⟨n, hn⟩ : ∃ n, octets.length = n + 1 :=
    Nat.exists_eq_succ_of_ne_zero (mt List.eq_nil_of_length_eq_zero hnil)
  rw [Writer.writeAll, hn, drain, if_neg hnil]
  rcases w.write octets with ⟨e | _ | m, v⟩
  · rfl
  · rfl
  · apply drain_fuel <;> rw [List.length_drop]
    omega

end Writer

/-- What comes of offering octets to a writer with interruptions.  Either none is met, and the
writer without them answers in the same way, or the first is met, and the rest can be offered. -/
inductive Writer.Resumes (w : Writer) (octets : Bytes) : Prop
  | quiet {fault : Option IoError} {left : Bytes} {v : Writer}
      (hwrite : w.writeAll octets = (fault, left, v)) (hhabit : v.habit = w.habit)
      (hkept : v.interruptions = w.interruptions) (hfault : ∀ e ∈ fault, e.isInterrupted = false)
      (hcalm : w.calm.writeAll octets = (fault, left, v.calm))
  | interrupted {e : IoError} {left : Bytes} {v : Writer}
      (hwrite : w.writeAll octets = (some e, left, v)) (hhabit : v.habit = w.habit)
      (hfirst : w.interruptions = e :: v.interruptions) (he : e.isInterrupted = true)
      (hagain : w.calm.writeAll octets = v.calm.writeAll left)

theorem Writer.Settles.writeAll {w : Writer} (h : w.Settles) (octets : Bytes) :
    w.Resumes octets := by
  induction hlength : octets.length using Nat.strong_induction_on generalizing w octets with
  | _ length ih =>
    by_cases hnil : octets = []
    · subst hnil
      apply Resumes.quiet rfl rfl rfl _ rfl
      rintro _ ⟨⟩
    · have hhabit := w.write_habit octets
      have heq := w.writeAll_eq hnil
      have heq' := w.calm.writeAll_eq hnil
      obtain ⟨hanswer, hkept, hcalm⟩ | ⟨e, v, hwrite, he, hfirst, hsame⟩ := h.write octets
      · rcases hwrite : w.write octets with ⟨e | _ | n, v⟩
        all_goals
          rw [hwrite] at hanswer hkept hcalm heq hhabit
          rw [hcalm] at heq'
        · refine .quiet heq hhabit hkept ?_ heq'
          rintro _ ⟨⟩
          simpa [interruptionIn] using hanswer
        · refine .quiet heq hhabit hkept ?_ heq'
          rintro _ ⟨⟩
          rfl
        · have hshort : (octets.drop (n + 1)).length < length := by
            have hpos : 0 < octets.length := List.length_pos_iff.mpr hnil
            rw [List.length_drop]
            omega
          cases ih _ hshort (h.of_habit hhabit) _ rfl with
          | quiet hwrite' hhabit' hkept' hfault hcalm' =>
            exact .quiet (heq.trans hwrite') (hhabit'.trans hhabit) (hkept'.trans hkept) hfault
              (heq'.trans hcalm')
          | interrupted hwrite' hhabit' hfirst he hagain =>
            exact .interrupted (heq.trans hwrite') (hhabit'.trans hhabit) (hkept ▸ hfirst) he
              (heq'.trans hagain)
      · rw [hwrite] at heq hhabit
        apply Resumes.interrupted heq hhabit hfirst he
        rw [hsame]

namespace Call

variable {σ α : Type} {call : Call σ α} {w : Writer}

/-- The same of an operation, which breaks off when it is interrupted. -/
inductive Resumes (call : Call σ α) (w : Writer) : Prop
  | quiet {answer : Except IoError α} {t : σ} {v : Writer} (hrun : call.run w = (answer, t, v))
      (hhabit : v.habit = w.habit) (hkept : v.interruptions = w.interruptions)
      (hfault : ∀ e, answer = .error e → e.isInterrupted = false)
      (hcalm : call.run w.calm = (answer, t, v.calm))
  | interrupted {e : IoError} {gone : Bytes} {t : σ} {rest : Call σ α} {v : Writer}
      (hrun : call.run w = (.error e, t, v)) (hhabit : v.habit = w.habit)
      (hfirst : w.interruptions = e :: v.interruptions) (he : e.isInterrupted = true)
      (hbreaks : call.Breaks gone t rest) (hagain : call.run w.calm = rest.run v.calm)

theorem run_send (w : Writer) (octets : Bytes) (kept : Bytes → σ) (next : Call σ α) :
    (send octets kept next).run w = match w.writeAll octets with
      | (some e, left, w) => (.error e, kept left, w)
      | (none, _, w) => next.run w := rfl

theorem run_resumes (call : Call σ α) (hw : w.Settles) : call.Resumes w := by
  induction call generalizing w with
  | answer a s =>
    apply Resumes.quiet rfl rfl rfl _ rfl
    rintro _ ⟨⟩
  | send octets kept next ih =>
    have hrun := run_send w octets kept next
    have hcalm := run_send w.calm octets kept next
    cases hw.writeAll octets with
    | @quiet fault left v hwrite hhabit hkept hfault hsame =>
      rw [hwrite] at hrun
      rw [hsame] at hcalm
      cases fault with
      | some e =>
        apply Resumes.quiet hrun hhabit hkept _ hcalm
        rintro _ ⟨⟩
        exact hfault e rfl
      | none =>
        cases ih (hw.of_habit hhabit) with
        | quiet hrun' hhabit' hkept' hfault' hcalm' =>
          exact .quiet (hrun.trans hrun') (hhabit'.trans hhabit) (hkept'.trans hkept) hfault'
            (hcalm.trans hcalm')
        | interrupted hrun' hhabit' hfirst he hbreaks hagain =>
          exact .interrupted (hrun.trans hrun') (hhabit'.trans hhabit) (hkept ▸ hfirst) he
            hbreaks.later (hcalm.trans hagain)
    | @interrupted e left v hwrite hhabit hfirst he hagain =>
      obtain ⟨taken, hsplit, _, hfault⟩ := w.writeAll_took octets
      rw [hwrite] at hrun hsplit hfault
      dsimp only at hsplit
      have hleft : left ≠ [] := by
        intro hnil
        cases hfault.mpr hnil
      subst hsplit
      apply Resumes.interrupted hrun hhabit hfirst he (.here hleft)
      rw [hcalm, hagain, run_send]

theorem Resumes.habit (h : call.Resumes w) : (call.run w).2.2.habit = w.habit := by
  cases h with
  | quiet hrun hhabit => rw [hrun, hhabit]
  | interrupted hrun hhabit => rw [hrun, hhabit]

theorem Resumes.suffix (h : call.Resumes w) :
    (call.run w).2.2.interruptions <:+ w.interruptions := by
  cases h with
  | quiet hrun _ hkept => rw [hrun, hkept]
  | @interrupted e gone t rest v hrun _ hfirst =>
    rw [hrun, hfirst]
    exact List.suffix_cons e _

/-- An operation that is not interrupted does the same without the interruptions to come. -/
theorem Resumes.calm (h : call.Resumes w)
    (hkept : (call.run w).2.2.interruptions = w.interruptions) :
    call.run w.calm = ((call.run w).1, (call.run w).2.1, (call.run w).2.2.calm) := by
  cases h with
  | quiet hrun _ _ _ hcalm => rw [hrun, hcalm]
  | interrupted hrun _ hfirst =>
    rw [hrun, hfirst] at hkept
    exact absurd hkept.symm (List.cons_ne_self _ _)

end Call

end GzipStage.Transfer
