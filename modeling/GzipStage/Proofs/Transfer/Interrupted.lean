import GzipStage.Proofs.Transfer.Calls
import GzipStage.Proofs.Transfer.Interruption

/-! Compressing a stream into a writer that interrupts it. -/
namespace GzipStage.Transfer

open Gzip

variable {E : Encoder} {s : E.State} {contents out octets : Bytes} {w : Writer} {fuel : Nat}
  {reader : List ReadEvent} {writer : Writer}

/-- The interruptions that calls are answered with are those that are no longer to come. -/
theorem Writer.Answers.interruptions {v : Writer} {answers : List (Except IoError Nat)}
    (h : w.Answers answers v) (hw : w.Settles) :
    w.interruptions = answers.filterMap interruptionIn ++ v.interruptions := by
  induction h with
  | nil w => rfl
  | @cons w v octets answers hnil hmore ih =>
    have hrest := ih (hw.of_habit (w.write_habit octets))
    obtain ⟨hanswer, hkept, _⟩ | ⟨e, u, hwrite, he, hfirst, _⟩ := hw.write octets
    · rw [List.filterMap_cons_none hanswer, ← hrest, hkept]
    · rw [hwrite] at hrest ⊢
      rw [List.filterMap_cons_some (b := e) (by simp [interruptionIn, he]), hfirst, hrest,
        List.cons_append]

namespace Encoder

theorem abandon_answers (s : E.State) (w : Writer) :
    ∃ answers, w.Answers answers (E.abandon s w) := by
  obtain ⟨first, hfirst, _⟩ := ((E.finish s).run_wrote w).called
  obtain ⟨second, hsecond, _⟩ := ((E.leave _).run_wrote ((E.finish s).run w).2.2).called
  exact ⟨first ++ second, hfirst.append hsecond⟩

theorem abandon_suffix (s : E.State) (hw : w.Settles) :
    (E.abandon s w).interruptions <:+ w.interruptions := by
  have hfinish := (E.finish s).run_resumes hw
  exact ((E.leave _).run_resumes (hw.of_habit hfinish.habit)).suffix.trans hfinish.suffix

/-- Giving up that meets no interruption goes the same way without those to come. -/
theorem abandon_calm (s : E.State) (hw : w.Settles)
    (hkept : (E.abandon s w).interruptions = w.interruptions) :
    E.abandon s w.calm = (E.abandon s w).calm := by
  have hfinish := (E.finish s).run_resumes hw
  have hleave := (E.leave ((E.finish s).run w).2.1).run_resumes (hw.of_habit hfinish.habit)
  have hfirst : ((E.finish s).run w).2.2.interruptions = w.interruptions :=
    hfinish.suffix.eq_of_length_le (hkept ▸ hleave.suffix.length_le)
  have hsecond := hleave.calm (hkept.trans hfirst.symm)
  unfold abandon
  rw [hfinish.calm hfirst]
  dsimp only
  rw [hsecond]

/-- Repeating interrupted calls comes to one call without interruptions. -/
theorem Lawful.writeRepeating_calm (hE : E.Lawful) (fuel : Nat) (h : E.Reaches s contents out)
    (hnil : octets ≠ []) (hw : w.Settles) (hfuel : w.interruptions.length ≤ fuel) :
    ∃ answer t v, E.writeRepeating fuel s w octets = (answer, t, v) ∧ v.habit = w.habit ∧
      (∀ e, answer = .error e → e.isInterrupted = false) ∧
      (E.write s octets).run w.calm = (answer, t, v.calm) := by
  induction fuel generalizing s out w with
  | zero =>
    cases (E.write s octets).run_resumes hw with
    | quiet hrun hhabit _ hfault hcalm => exact ⟨_, _, _, hrun, hhabit, hfault, hcalm⟩
    | interrupted _ _ hfirst =>
      rw [hfirst] at hfuel
      exact absurd hfuel (Nat.not_succ_le_zero _)
  | succ fuel ih =>
    unfold writeRepeating
    cases (E.write s octets).run_resumes hw with
    | @quiet answer t v hrun hhabit _ hfault hcalm =>
      refine ⟨answer, t, v, ?_, hhabit, hfault, hcalm⟩
      rw [hrun]
      cases answer with
      | ok n => rfl
      | error e => exact if_neg (ne_true_of_eq_false (hfault e rfl))
    | @interrupted e gone t rest v hrun hhabit hfirst he hbreaks hagain =>
      have hshort : v.interruptions.length ≤ fuel := by
        rw [hfirst] at hfuel
        exact Nat.le_of_succ_le_succ hfuel
      obtain ⟨answer, u, x, hrepeat, hhabit', hfault, hcalm⟩ :=
        ih (h.broke hnil hbreaks) (hw.of_habit hhabit) hshort
      rw [hE.write_again h hnil hbreaks] at hcalm
      refine ⟨answer, u, x, ?_, hhabit'.trans hhabit, hfault, hagain.trans hcalm⟩
      rw [hrun]
      exact (if_pos he).trans hrepeat

theorem writeRepeating_eq_run (fuel : Nat) (s : E.State) (w : Writer) (octets : Bytes)
    (h : ∀ e, ((E.write s octets).run w).1 = .error e → e.isInterrupted = false) :
    E.writeRepeating fuel s w octets = (E.write s octets).run w := by
  cases fuel with
  | zero => rfl
  | succ fuel =>
    unfold writeRepeating
    rcases hw : (E.write s octets).run w with ⟨e | n, t, v⟩
    · exact if_neg (ne_true_of_eq_false (h e (by rw [hw])))
    · rfl

theorem Lawful.feed_calm (hE : E.Lawful) (h : E.Reaches s contents out) (hw : w.Settles) :
    ∃ fault t v, E.feed fuel s w octets = (fault, t, v) ∧ v.habit = w.habit ∧
      (∀ e ∈ fault, e.isInterrupted = false) ∧
      E.feed fuel s w.calm octets = (fault, t, v.calm) := by
  induction fuel generalizing s contents out octets w with
  | zero =>
    refine ⟨_, s, w, rfl, rfl, ?_, rfl⟩
    intro e he
    split at he
    · cases he
    · cases he
      rfl
  | succ fuel ih =>
    unfold feed
    split
    · refine ⟨_, _, _, rfl, rfl, ?_, rfl⟩
      rintro _ ⟨⟩
    next hnil =>
      obtain ⟨answer, t, v, hrepeat, hhabit, hfault, hcalm⟩ :=
        hE.writeRepeating_calm w.events.length h hnil hw w.interruptions_length_le
      have hrepeat' : E.writeRepeating w.calm.events.length s w.calm octets =
          (answer, t, v.calm) := by
        rw [writeRepeating_eq_run, hcalm]
        rw [hcalm]
        exact hfault
      have hcomes := hE.writeRepeating_comes w.events.length h hnil w
      rw [hrepeat] at hcomes ⊢
      rw [hrepeat']
      cases hcomes with
      | @broken e _ _ _ _ _ _ =>
        refine ⟨_, _, _, rfl, hhabit, ?_, rfl⟩
        rintro _ ⟨⟩
        exact hfault e rfl
      | done _ =>
        have hreaches := h.wrote hnil
        cases hresult : (E.write s octets).result with
        | zero =>
          refine ⟨_, _, _, rfl, hhabit, ?_, rfl⟩
          rintro _ ⟨⟩
          rfl
        | succ n =>
          obtain ⟨fault, u, x, hfeed, hhabit', hfault', hcalm'⟩ :=
            ih hreaches (hw.of_habit hhabit)
          exact ⟨fault, u, x, hfeed, hhabit'.trans hhabit, hfault', hcalm'⟩

/-- Copying comes to the same without the interruptions of the writer, and never fails with one. -/
theorem Lawful.copy_calm (hE : E.Lawful) (events : List ReadEvent) (h : E.Reaches s contents out)
    (hw : w.Settles) (count : Nat) :
    ∃ answer t v unread, E.copy events s w count = ⟨answer, t, v, unread⟩ ∧ v.habit = w.habit ∧
      (∀ e, answer = .error (.writer, e) → e.isInterrupted = false) ∧
      E.copy events s w.calm count = ⟨answer, t, v.calm, unread⟩ := by
  induction events generalizing s contents out w count with
  | nil => exact ⟨_, _, _, _, rfl, rfl, by rintro _ ⟨⟩, rfl⟩
  | cons event events ih =>
    cases event with
    | fault e =>
      unfold copy
      split
      · exact ih h hw count
      · exact ⟨_, _, _, _, rfl, rfl, by rintro _ ⟨⟩, rfl⟩
    | chunk octets =>
      unfold copy
      split
      · exact ⟨_, _, _, _, rfl, rfl, by rintro _ ⟨⟩, rfl⟩
      · obtain ⟨fault, t, v, hfeed, hhabit, hfault, hcalm⟩ := hE.feed_calm h hw
        have hcases := hE.feed_cases h (le_refl octets.length) w
        rw [hfeed] at hcases ⊢
        rw [hcalm]
        cases fault with
        | some e =>
          refine ⟨_, _, _, _, rfl, hhabit, ?_, rfl⟩
          rintro _ ⟨⟩
          exact hfault e rfl
        | none =>
          obtain ⟨u, hu, _⟩ | ⟨e, u, x, hnone, _⟩ := hcases
          · have ht : t = (E.absorb octets.length s octets).1 := congrArg (·.2.1) hu
            subst ht
            obtain ⟨answer, u, x, unread, hcopy, hhabit', hanswer, hcalm'⟩ :=
              ih (hE.reaches_absorb h (le_refl octets.length)) (hw.of_habit hhabit)
                (count + octets.length)
            exact ⟨answer, u, x, unread, hcopy, hhabit'.trans hhabit, hanswer, hcalm'⟩
          · cases hnone

/-- When nothing is delivered, the writer is not called while copying. -/
theorem copy_idle (events : List ReadEvent) (h : delivered events = []) (s : E.State) (w : Writer)
    (count : Nat) : (E.copy events s w count).writer = w := by
  induction events with
  | nil => rfl
  | cons event events ih =>
    cases event with
    | fault e =>
      unfold copy
      split
      next hagain =>
        apply ih
        rwa [delivered, pieces, if_pos hagain] at h
      · rfl
    | chunk octets =>
      unfold copy
      split
      · rfl
      next hnil =>
        rw [delivered_chunk events hnil] at h
        exact absurd (List.append_eq_nil_iff.mp h).1 hnil

end Encoder

theorem compress_answers (reader : List ReadEvent) (writer : Writer) (E : Encoder) :
    ∃ answers, (E.copy reader E.start writer 0).writer.Answers answers
      (compress reader writer E).writer := by
  cases hresult : (E.copy reader E.start writer 0).result with
  | error failure =>
    rw [(compress_uncopied hresult).2]
    exact E.abandon_answers _ _
  | ok count =>
    obtain ⟨first, hfirst, _⟩ :=
      ((E.finish (E.copy reader E.start writer 0).encoder).run_wrote _).called
    rcases hfinish : (E.finish (E.copy reader E.start writer 0).encoder).run
      (E.copy reader E.start writer 0).writer with ⟨e | _, t, v⟩
    all_goals rw [hfinish] at hfirst
    · obtain ⟨second, hsecond⟩ := E.abandon_answers t v
      rw [(compress_unfinished hresult hfinish).2]
      exact ⟨first ++ second, hfirst.append hsecond⟩
    · rw [(compress_finished hresult hfinish).2]
      exact ⟨first, hfirst⟩

/-- Compressing that meets no interruption behind the end of the reader goes the same way without
the interruptions. -/
theorem compress_calm (hE : E.Lawful) (hw : writer.Settles)
    (hkept : (compress reader writer E).writer.interruptions =
      (E.copy reader E.start writer 0).writer.interruptions) :
    (compress reader writer.calm E).result = (compress reader writer E).result ∧
      (compress reader writer.calm E).writer = (compress reader writer E).writer.calm := by
  obtain ⟨answer, s, w, unread, hcopy, hhabit, _, hcalm⟩ := hE.copy_calm reader .start hw 0
  have hsettles := hw.of_habit hhabit
  have hresult := congrArg Copied.result hcopy
  have hresult' := congrArg Copied.result hcalm
  cases answer with
  | error failure =>
    obtain ⟨hanswer, hwriter⟩ := compress_uncopied hresult
    obtain ⟨hanswer', hwriter'⟩ := compress_uncopied hresult'
    rw [hcopy] at hwriter hkept
    rw [hcalm] at hwriter'
    rw [hwriter] at hkept
    rw [hanswer, hanswer', hwriter, hwriter']
    exact ⟨rfl, E.abandon_calm s hsettles hkept⟩
  | ok count =>
    cases (E.finish s).run_resumes hsettles with
    | @quiet answer t v hrun hhabit' hkept' _ hcalm' =>
      have hfinish : (E.finish (E.copy reader E.start writer 0).encoder).run
          (E.copy reader E.start writer 0).writer = (answer, t, v) := by rw [hcopy, hrun]
      have hfinish' : (E.finish (E.copy reader E.start writer.calm 0).encoder).run
          (E.copy reader E.start writer.calm 0).writer = (answer, t, v.calm) := by
        rw [hcalm, hcalm']
      cases answer with
      | ok _ =>
        obtain ⟨hanswer, hwriter⟩ := compress_finished hresult hfinish
        obtain ⟨hanswer', hwriter'⟩ := compress_finished hresult' hfinish'
        rw [hanswer, hanswer', hwriter, hwriter']
        exact ⟨rfl, rfl⟩
      | error e =>
        obtain ⟨hanswer, hwriter⟩ := compress_unfinished hresult hfinish
        obtain ⟨hanswer', hwriter'⟩ := compress_unfinished hresult' hfinish'
        rw [hcopy, hwriter] at hkept
        rw [hanswer, hanswer', hwriter, hwriter']
        exact ⟨rfl, E.abandon_calm t (hsettles.of_habit hhabit') (hkept.trans hkept'.symm)⟩
    | @interrupted e gone t rest v hrun hhabit' hfirst _ _ _ =>
      have hfinish : (E.finish (E.copy reader E.start writer 0).encoder).run
          (E.copy reader E.start writer 0).writer = (.error e, t, v) := by rw [hcopy, hrun]
      have hsuffix := E.abandon_suffix t (hsettles.of_habit hhabit')
      rw [(compress_unfinished hresult hfinish).2, hcopy, hfirst] at hkept
      rw [hkept] at hsuffix
      exact absurd hsuffix.length_le (by simp)

/-- The only interruption that is met comes behind the end of the reader.  It is returned, and the
member is completed. -/
theorem compress_interrupted_late (hE : E.Lawful) {count : Nat} {e : IoError}
    (hw : writer.Settles) (hend : (E.copy reader E.start writer 0).result = .ok count)
    (hlate : (E.copy reader E.start writer 0).writer.interruptions =
      e :: (compress reader writer E).writer.interruptions)
    (hserves : writer.calm.Serves (E.output (pieces reader)).length) :
    (compress reader writer E).result = .error (.writer, e) ∧
      (compress reader writer E).writer.accepted.toList =
        writer.accepted.toList ++ E.output (pieces reader) := by
  obtain ⟨answer, s, w, unread, hcopy, hhabit, _, hcalm⟩ := hE.copy_calm reader .start hw 0
  have hsettles := hw.of_habit hhabit
  rw [hcopy] at hend hlate
  obtain rfl : answer = .ok count := hend
  obtain ⟨_, hencoder, htook⟩ | ⟨e', hanswer, _⟩ := hE.copy_cases reader .start writer.calm 0
  swap
  · rw [hcalm] at hanswer
    cases hanswer
  rw [hcalm] at hencoder htook
  dsimp only at hencoder htook hlate
  subst hencoder
  have hcompletes := hE.completes (hE.reaches_absorbAll (pieces reader) .start)
  have hlength := E.length_output (pieces reader)
  -- without the interruption the rest of the member would be written
  obtain ⟨u, hrest, htook'⟩ := (E.finish (E.absorbAll E.start (pieces reader)).1).run_served
    (htook.serves _ hserves) (by omega)
  have hresult := congrArg Copied.result hcopy
  cases (E.finish (E.absorbAll E.start (pieces reader)).1).run_resumes hsettles with
  | @quiet answer t v hrun _ hkept _ hcalm' =>
    obtain ⟨rfl, rfl, hu⟩ : answer = .ok _ ∧ t = _ ∧ v.calm = u := by simpa [hcalm'] using hrest
    rw [(compress_finished hresult (by rw [hcopy]; exact hrun)).2, hkept] at hlate
    exact absurd hlate.symm (List.cons_ne_self _ _)
  | @interrupted e' gone t rest v hrun hhabit' hfirst _ hbreaks hagain =>
    obtain ⟨hanswer, hwriter⟩ :=
      compress_unfinished hresult (by rw [hcopy]; exact hrun)
    rw [hwriter, hfirst] at hlate
    obtain ⟨rfl, hkept⟩ := List.cons.inj hlate
    have habandon := E.abandon_calm t (hsettles.of_habit hhabit') hkept.symm
    have hfinish : (E.finish t).run v.calm =
        (.ok (E.finish (E.absorbAll E.start (pieces reader)).1).result,
          (E.finish (E.absorbAll E.start (pieces reader)).1).state, u) := by
      rw [hcompletes.again hbreaks, ← hagain, hrest]
    refine ⟨hanswer, ?_⟩
    calc (compress reader writer E).writer.accepted.toList
        = (E.abandon t v.calm).accepted.toList := by rw [hwriter, habandon]; rfl
      _ = u.accepted.toList := by
          unfold Encoder.abandon
          rw [hfinish]
          exact congrArg Array.toList ((E.leave _).run_idle hcompletes.silent u)
      _ = writer.accepted.toList ++ E.output (pieces reader) := (htook.trans htook').accepted

/-- Which calls are made before the end of the reader is seen: all of the header if there is
something to copy, else none, and in no case one of the trailer. -/
theorem copy_ok_accepted (hE : E.Lawful) {count : Nat}
    (h : (E.copy reader E.start writer 0).result = .ok count) :
    (delivered reader ≠ [] →
      writer.accepted.size + 10 ≤ (E.copy reader E.start writer 0).writer.accepted.size) ∧
    (delivered reader = [] → (E.copy reader E.start writer 0).writer = writer) ∧
    (E.copy reader E.start writer 0).writer.accepted.size + 8 ≤
      writer.accepted.size + (E.output (pieces reader)).length := by
  obtain ⟨_, _, htook⟩ | ⟨e, hresult, _⟩ := hE.copy_cases reader .start writer 0
  swap
  · rw [hresult] at h
    cases h
  have hreaches := hE.reaches_absorbAll (pieces reader) .start
  have htrailer := hE.trailer_le hreaches
  have hlength := E.length_output (pieces reader)
  have hsize := htook.size_eq
  refine ⟨?_, ?_, by omega⟩
  · intro hdata
    have hheader := hE.header_first hreaches hdata
    rw [List.nil_append] at hheader
    omega
  · intro hnil
    exact E.copy_idle reader hnil _ _ _

/-- What interruptions of the writer do while a stream is compressed.  While contents are copied
they are repeated: copying never fails with one, and comes to the same encoder and the same octets
as without them.  If none is met later, compressing has the same result and writes the same octets
as well.  If a single one is met once the end of the reader has been seen, it is returned, and the
writer, if it takes everything else, has the whole member.  The header is written before the end is
seen if there is something to copy, else after it, and so is every trailer. -/
theorem compress_interrupted (hE : E.Lawful) {answer : Except (Side × IoError) Nat}
    {unread : List ReadEvent} (hwriter : writer.Settles)
    (hcopy : E.copy reader E.start writer 0 = ⟨answer, s, w, unread⟩) :
    (∀ e, answer = .error (.writer, e) → e.isInterrupted = false) ∧
      E.copy reader E.start writer.calm 0 = ⟨answer, s, w.calm, unread⟩ ∧
      (∀ count, answer = .ok count →
        (delivered reader ≠ [] → writer.accepted.size + 10 ≤ w.accepted.size) ∧
        (delivered reader = [] → w = writer) ∧
        w.accepted.size + 8 ≤ writer.accepted.size + (E.output (pieces reader)).length) ∧
      (readFailure reader = none → writer.calm.Serves (E.output (pieces reader)).length →
        ∃ count, answer = .ok count) ∧
      (∃ answers, w.Answers answers (compress reader writer E).writer) ∧
      ∀ answers, w.Answers answers (compress reader writer E).writer →
        (answers.filterMap interruptionIn = [] →
          (compress reader writer E).result = (compress reader writer.calm E).result ∧
          (compress reader writer E).writer.accepted =
            (compress reader writer.calm E).writer.accepted) ∧
        ∀ count e, answer = .ok count → answers.filterMap interruptionIn = [e] →
          writer.calm.Serves (E.output (pieces reader)).length →
          (compress reader writer E).result = .error (.writer, e) ∧ ∃ octets,
            (compress reader writer E).writer.accepted.toList =
              writer.accepted.toList ++ octets ∧
            IsMember octets (delivered reader) := by
  obtain ⟨answer', s', w', unread', hcopy', hhabit, hanswer, hcalm⟩ :=
    hE.copy_calm reader .start hwriter 0
  obtain ⟨rfl, rfl, rfl, rfl⟩ : answer = answer' ∧ s = s' ∧ w = w' ∧ unread = unread' := by
    simpa [hcopy] using hcopy'
  refine ⟨hanswer, hcalm, ?_, ?_, ?_, ?_⟩
  · rintro count rfl
    have haccepted := copy_ok_accepted hE (congrArg Copied.result hcopy)
    rwa [hcopy] at haccepted
  · intro hreader hserves
    have hlength := E.length_output (pieces reader)
    have hserved := hE.copy_served reader .start hserves (by omega) 0
    obtain ⟨hresult, _⟩ | ⟨e, hresult, _⟩ := hE.copy_cases reader .start writer.calm 0
    · rw [hcalm, hreader] at hresult
      exact ⟨_, hresult⟩
    · exact absurd hresult (hserved e)
  · have hanswers := compress_answers reader writer E
    rwa [hcopy] at hanswers
  · intro answers hanswers
    have hmet := hanswers.interruptions (hwriter.of_habit hhabit)
    constructor
    · intro hnone
      rw [hnone, List.nil_append] at hmet
      obtain ⟨hresult, hsame⟩ := compress_calm hE hwriter (by rw [hcopy, hmet])
      rw [hresult, hsame]
      exact ⟨rfl, rfl⟩
    · rintro count e rfl hone hserves
      rw [hone, List.singleton_append] at hmet
      obtain ⟨hresult, haccepted⟩ := compress_interrupted_late hE hwriter
        (congrArg Copied.result hcopy) (by rw [hcopy, hmet]) hserves
      exact ⟨hresult, _, haccepted, hE.output_isMember _⟩

/-- A header that is interrupted twice, for two octets and for none. -/
theorem compress_interrupted_header :
    let again : WriteEvent := .fault (.refuse (.plain .interrupted))
    let writer : Writer := ⟨[.take 3 2, again, .take 2 2, again], .take (some 4), none, #[]⟩
    let late : Writer := ⟨[.take 3 2, again], .take (some 4), none, #[]⟩
    (compress [.chunk [0x68, 0x69]] writer).result = .ok 2 ∧
      (compress [.chunk [0x68, 0x69]] writer).writer.accepted =
        (compress [.chunk [0x68, 0x69]] writer.calm).writer.accepted ∧
      (compress [] late).result = .error (.writer, .plain .interrupted) ∧
      IsMember (compress [] late).writer.accepted.toList [] := by
  intro again writer late
  obtain ⟨answer, s, w, unread, hcopy, hw, hmet⟩ : ∃ answer s w unread,
      Gzip.encoder.copy [.chunk [0x68, 0x69]] Gzip.encoder.start writer 0 =
          ⟨answer, s, w, unread⟩ ∧
        w.Settles ∧ w.interruptions = [] := ⟨_, _, _, _, rfl, by rintro _ ⟨⟩, rfl⟩
  have hsettles : writer.Settles := by rintro _ ⟨⟩
  have hserves : writer.calm.Serves
      (Gzip.encoder.output (pieces [.chunk [0x68, 0x69]])).length :=
    .inr ⟨by decide, by decide, .inr ⟨by decide, by decide, .inr (by decide : 0 < 4)⟩⟩
  obtain ⟨_, hcalm, _, _, ⟨answers, hanswers⟩, hall⟩ :=
    compress_interrupted encoder_lawful hsettles hcopy
  have hnone := hanswers.interruptions hw
  rw [hmet] at hnone
  obtain ⟨hresult, haccepted⟩ :=
    (hall answers hanswers).1 (List.append_eq_nil_iff.mp hnone.symm).1
  have hresult' : (compress [.chunk [0x68, 0x69]] writer.calm).result = .ok 2 :=
    (compress_flushes encoder_lawful rfl hserves).1
  refine ⟨hresult.trans hresult', haccepted, ?_⟩
  have hsettles' : late.Settles := by rintro _ ⟨⟩
  have hserves' : late.calm.Serves (Gzip.encoder.output (pieces [])).length :=
    .inr ⟨by decide, by decide, .inr (by decide : 0 < 4)⟩
  have hleft : (compress [] late).writer.interruptions = [] := by decide +kernel
  obtain ⟨_, _, _, _, ⟨answers', hanswers'⟩, hall'⟩ := compress_interrupted encoder_lawful
    hsettles' (show Gzip.encoder.copy [] Gzip.encoder.start late 0 =
      ⟨.ok 0, Gzip.encoder.start, late, []⟩ from rfl)
  have hmet' := hanswers'.interruptions hsettles'
  rw [hleft, List.append_nil] at hmet'
  obtain ⟨hlate, octets, haccepted', hmember⟩ :=
    (hall' answers' hanswers').2 0 _ rfl hmet'.symm hserves'
  refine ⟨hlate, ?_⟩
  rw [haccepted']
  exact hmember

end GzipStage.Transfer
