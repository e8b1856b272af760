import GzipStage.Proofs.Transfer.Failures

/-! The calls that compressing a stream makes. -/
namespace GzipStage.Transfer

open Gzip

namespace Writer

variable {w v u : Writer} {fault fault' : Option IoError}

/-- Calls that follow one another, with what they answer. -/
inductive Answers : Writer → List (Except IoError Nat) → Writer → Prop
  | nil (w : Writer) : Answers w [] w
  | cons {w v : Writer} {octets : Bytes} {answers : List (Except IoError Nat)}
      (hnil : octets ≠ []) (hmore : Answers (w.write octets).2 answers v) :
      Answers w ((w.write octets).1 :: answers) v

theorem Answers.append {first second : List (Except IoError Nat)} (h : w.Answers first v)
    (h' : v.Answers second u) : w.Answers (first ++ second) u := by
  induction h with
  | nil w => exact h'
  | cons hnil _ ih => exact .cons hnil (ih h')

/-- A call reports an error by failing with it, or by taking nothing. -/
inductive Reports : Except IoError Nat → IoError → Prop
  | failed (e : IoError) : Reports (.error e) e
  | stalled : Reports (.ok 0) .writeZero

/-- Calls lead from one writer to another; if there is a fault, the last of them reports it. -/
def Called (w : Writer) (fault : Option IoError) (v : Writer) : Prop :=
  ∃ answers, w.Answers answers v ∧ ∀ e ∈ fault, ∃ last ∈ answers.getLast?, Reports last e

theorem Called.refl (w : Writer) : w.Called none w := ⟨[], .nil w, nofun⟩

theorem Called.trans (h : w.Called fault v) (h' : v.Called fault' u) : w.Called fault' u := by
  obtain ⟨first, hfirst, _⟩ := h
  obtain ⟨second, hsecond, hreports⟩ := h'
  refine ⟨first ++ second, hfirst.append hsecond, ?_⟩
  intro e he
  obtain ⟨last, hlast, hlast'⟩ := hreports e he
  refine ⟨last, ?_, hlast'⟩
  rw [Option.mem_def] at hlast ⊢
  rw [List.getLast?_append, hlast]
  rfl

theorem Called.one {octets : Bytes} (hnil : octets ≠ [])
    (hreports : ∀ e ∈ fault, Reports (w.write octets).1 e) :
    w.Called fault (w.write octets).2 :=
  ⟨_, .cons hnil (.nil _), fun e he => ⟨_, rfl, hreports e he⟩⟩

theorem drain_called (fuel : Nat) (w : Writer) {octets : Bytes} (hfuel : octets.length ≤ fuel) :
    w.Called (w.drain fuel octets).1 (w.drain fuel octets).2.2 := by
  induction fuel generalizing w octets with
  | zero =>
    obtain rfl := List.eq_nil_of_length_eq_zero (Nat.le_zero.mp hfuel)
    exact Called.refl w
  | succ fuel ih =>
    unfold drain
    split
    · exact Called.refl w
    next hnil =>
      have hone (fault : Option IoError) (hreports : ∀ e ∈ fault, Reports (w.write octets).1 e) :
          w.Called fault (w.write octets).2 := Called.one hnil hreports
      rcases hwrite : w.write octets with ⟨e | n, v⟩
      · rw [hwrite] at hone
        apply hone
        rintro _ ⟨⟩
        exact .failed e
      · rw [hwrite] at hone
        cases n with
        | zero =>
          apply hone
          rintro _ ⟨⟩
          exact .stalled
        | succ n =>
          have htaken : w.Called none v := by
            apply hone
            rintro _ ⟨⟩
          apply htaken.trans
          apply ih
          rw [List.length_drop]
          omega

theorem Wrote.called (h : w.Wrote fault v) : w.Called fault v := by
  induction h with
  | all w octets => exact w.drain_called octets.length le_rfl
  | andThen _ _ ihfirst ihmore => exact ihfirst.trans ihmore
  | again _ _ _ ihfirst ihmore => exact ihfirst.trans ihmore

end Writer

variable {E : Encoder}

/-- The failure of the writer's end: what the last call before the encoder is given up reports, or
what is said when the writer is told to flush at the end. -/
inductive WriterFails (E : Encoder) (writer : Writer) (e : IoError) (left : Writer) : Prop
  | call {v : Writer} (s : E.State) (hcalled : writer.Called (some e) v)
      (hleft : left = E.abandon s v)
  | flush (hcalled : writer.Called none left) (hflush : left.flush = some e)

theorem compress_writer_fails (hE : E.Lawful) {reader : List ReadEvent} {writer : Writer}
    {e : IoError} (h : (compress reader writer E).result = .error (.writer, e)) :
    WriterFails E writer e (compress reader writer E).writer := by
  have hcopied := (hE.copy_wrote reader .start writer 0).called
  cases hresult : (E.copy reader E.start writer 0).result with
  | error failure =>
    obtain ⟨hanswer, hwriter⟩ := compress_uncopied hresult
    rw [hanswer] at h
    obtain rfl := Except.error.inj h
    rw [hresult] at hcopied
    exact .call _ hcopied hwriter
  | ok count =>
    rw [hresult] at hcopied
    have hfinished := hcopied.trans
      ((E.finish (E.copy reader E.start writer 0).encoder).run_wrote _).called
    rcases hfinish : (E.finish (E.copy reader E.start writer 0).encoder).run
      (E.copy reader E.start writer 0).writer with ⟨e' | _, t, v⟩
    all_goals rw [hfinish] at hfinished
    · obtain ⟨hanswer, hwriter⟩ := compress_unfinished hresult hfinish
      rw [hanswer] at h
      cases h
      exact .call t hfinished hwriter
    · obtain ⟨hanswer, hwriter⟩ := compress_finished hresult hfinish
      rw [hanswer] at h
      rw [hwriter]
      cases hflush : v.flush with
      | none =>
        rw [hflush] at h
        cases h
      | some e' =>
        rw [hflush] at h
        cases h
        exact .flush hfinished hflush

/-- What the calls of the reader say about an answer: it is the failure of the last of them, or
none of them has failed. -/
def Tells (answers : List ReadEvent) : Except (Side × IoError) Nat → Prop
  | .error (.reader, e) => ∃ front, answers = front ++ [.fault e] ∧ e.isInterrupted = false ∧
      ∀ event ∈ front, event.fails = false
  | _ => ∀ event ∈ answers, event.fails = false

namespace Tells

variable {answers : List ReadEvent} {e cause : IoError}

theorem cons {event : ReadEvent} {answer : Except (Side × IoError) Nat} (h : Tells answers answer)
    (hevent : event.fails = false) : Tells (event :: answers) answer := by
  unfold Tells at h ⊢
  split at h
  · obtain ⟨front, rfl, hfatal, hfront⟩ := h
    exact ⟨event :: front, rfl, hfatal, List.forall_mem_cons.mpr ⟨hevent, hfront⟩⟩
  · exact List.forall_mem_cons.mpr ⟨hevent, h⟩

theorem fault_mem (h : Tells answers (.error (.reader, e))) :
    .fault e ∈ answers ∧ e.isInterrupted = false := by
  obtain ⟨front, rfl, hfatal, _⟩ := h
  exact ⟨List.mem_append_right front List.mem_cons_self, hfatal⟩

theorem reader_of_fault {side : Side} (h : Tells answers (.error (side, e)))
    (hmem : .fault cause ∈ answers) (hfatal : cause.isInterrupted = false) :
    side = .reader ∧ cause = e := by
  have hfails : (ReadEvent.fault cause).fails ≠ false := by simp [ReadEvent.fails, hfatal]
  cases side with
  | reader =>
    obtain ⟨front, rfl, _, hfront⟩ := h
    rcases List.mem_append.mp hmem with hmem | hmem
    · exact absurd (hfront _ hmem) hfails
    · exact ⟨rfl, ReadEvent.fault.inj (List.mem_singleton.mp hmem)⟩
  | writer => exact absurd (h _ hmem) hfails

theorem writer_of_interrupted {side : Side} (h : Tells answers (.error (side, e)))
    (hall : ∀ cause, .fault cause ∈ answers → cause.isInterrupted = true) : side = .writer := by
  cases side with
  | reader =>
    obtain ⟨hmem, hfatal⟩ := h.fault_mem
    exact absurd (hall e hmem) (ne_true_of_eq_false hfatal)
  | writer => rfl

end Tells

/-- The calls of the reader that copying makes come first, and tell what it answers. -/
theorem copy_tells (events : List ReadEvent) (s : E.State) (w : Writer) (count : Nat) :
    ∃ met, events = met ++ (E.copy events s w count).unread ∧
      Tells met (E.copy events s w count).result := by
  induction events generalizing s w count with
  | nil => exact ⟨[], rfl, List.forall_mem_nil _⟩
  | cons event events ih =>
    cases event with
    | fault e =>
      unfold Encoder.copy
      split
      next hagain =>
        obtain ⟨met, hmet, htells⟩ := ih s w count
        exact ⟨.fault e :: met, congrArg _ hmet, htells.cons (by simp [ReadEvent.fails, hagain])⟩
      next hfatal =>
        exact ⟨[.fault e], rfl, [], rfl, eq_false_of_ne_true hfatal, List.forall_mem_nil _⟩
    | chunk octets =>
      unfold Encoder.copy
      split
      · exact ⟨[.chunk octets], rfl, List.forall_mem_singleton.mpr rfl⟩
      · rcases E.feed octets.length s w octets with ⟨_ | e, t, v⟩
        · obtain ⟨met, hmet, htells⟩ := ih t v (count + octets.length)
          exact ⟨.chunk octets :: met, congrArg _ hmet, htells.cons rfl⟩
        · exact ⟨[.chunk octets], rfl, List.forall_mem_singleton.mpr rfl⟩

theorem compress_tells (reader : List ReadEvent) (writer : Writer) (E : Encoder) :
    (compress reader writer E).reads <+: reader ∧
      Tells (compress reader writer E).reads (compress reader writer E).result := by
  obtain ⟨met, hmet, htells⟩ := copy_tells reader E.start writer 0
  have htake (left : List ReadEvent) (hleft : reader = met ++ left) :
      reader.take (reader.length - left.length) = met := by
    rw [hleft]
    apply List.take_left'
    rw [List.length_append, Nat.add_sub_cancel]
  have hreads : (compress reader writer E).reads = met := by
    rw [← htake _ hmet]
    unfold compress
    dsimp only
    split
    · rfl
    · split
      · rfl
      · split <;> rfl
  rw [hreads]
  refine ⟨⟨_, hmet.symm⟩, ?_⟩
  -- the reader has been called for the last time, so what comes now is the writer's
  unfold compress
  dsimp only
  split
  next hresult => rwa [hresult] at htells
  next hresult =>
    rw [hresult] at htells
    split
    · exact htells
    · split
      · exact htells
      · exact htells

end GzipStage.Transfer
