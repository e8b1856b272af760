import GzipStage.Proofs.Transfer.Breakdown
import GzipStage.Proofs.Transfer.Compress

/-! Compressing a stream when an end fails. -/
namespace GzipStage.Transfer

open Gzip

variable {E : Encoder} {s : E.State} {contents out octets left : Bytes} {w : Writer}
  {b : Writer.Breakdown} {fuel : Nat}

/-- The error of an answer when the writer's end has failed. -/
def writerFault : Except (Side × IoError) Nat → Option IoError
  | .error (.writer, e) => some e
  | _ => none

namespace Encoder

theorem writeRepeating_wrote (fuel : Nat) (s : E.State) (w : Writer) (octets : Bytes) :
    w.Wrote (Call.errorOf (E.writeRepeating fuel s w octets).1)
      (E.writeRepeating fuel s w octets).2.2 := by
  induction fuel generalizing s w with
  | zero => exact (E.write s octets).run_wrote w
  | succ fuel ih =>
    have hrun := (E.write s octets).run_wrote w
    unfold writeRepeating
    rcases hw : (E.write s octets).run w with ⟨e | n, t, v⟩
    · rw [hw] at hrun
      dsimp only
      split
      next hagain => exact hrun.again hagain (ih t v)
      next => exact hrun
    · rwa [hw] at hrun

theorem Lawful.feed_wrote (hE : E.Lawful) (h : E.Reaches s contents out)
    (hfuel : octets.length ≤ fuel) (w : Writer) :
    w.Wrote (E.feed fuel s w octets).1 (E.feed fuel s w octets).2.2 := by
  induction fuel generalizing s contents out octets w with
  | zero =>
    obtain rfl := List.eq_nil_of_length_eq_zero (Nat.le_zero.mp hfuel)
    exact .refl w
  | succ fuel ih =>
    unfold feed
    split
    · exact .refl w
    next hnil =>
      have hwrote := writeRepeating_wrote w.events.length s w octets
      have hcomes := hE.writeRepeating_comes w.events.length h hnil w
      obtain ⟨hpos, -⟩ := hE.takes h hnil
      generalize E.writeRepeating w.events.length s w octets = answer at hwrote hcomes ⊢
      cases hcomes with
      | broken _ _ => exact hwrote
      | @done v _ =>
        obtain ⟨n, hn⟩ := Nat.exists_eq_succ_of_ne_zero hpos.ne'
        have hreaches := h.wrote hnil
        rw [hn] at hreaches ⊢
        apply hwrote.andThen
        apply ih hreaches
        rw [List.length_drop]
        omega

theorem Lawful.copy_wrote (hE : E.Lawful) (events : List ReadEvent) (h : E.Reaches s contents out)
    (w : Writer) (count : Nat) :
    w.Wrote (writerFault (E.copy events s w count).result) (E.copy events s w count).writer := by
  induction events generalizing s contents out w count with
  | nil => exact .refl w
  | cons event events ih =>
    cases event with
    | fault e =>
      unfold copy
      split
      · exact ih h w count
      · exact .refl w
    | chunk octets =>
      unfold copy
      split
      · exact .refl w
      · have hfed := hE.feed_wrote h (le_refl octets.length) w
        obtain ⟨v, hfeed, _⟩ | ⟨e, t, v, hfeed, _⟩ := hE.feed_cases h (le_refl octets.length) w
        · rw [hfeed] at hfed ⊢
          exact hfed.andThen (ih (hE.reaches_absorb h (le_refl octets.length)) v _)
        · rw [hfeed] at hfed ⊢
          exact hfed

/-- Dropping an encoder adds nothing when the writer goes on refusing. -/
theorem abandon_refused (s : E.State) (h : w.Refuses) :
    (E.abandon s w).accepted = w.accepted := by
  obtain ⟨hrefuses, hfinish⟩ := ((E.finish s).run_wrote w).refused h
  exact (((E.leave _).run_wrote _).refused hrefuses).2.trans hfinish

end Encoder

/-- Whether the reader's end is seen before anything goes wrong. -/
def SeesEnd (reader : List ReadEvent) (writer : Writer) (E : Encoder) : Prop :=
  ∃ n, (E.copy reader E.start writer 0).result = .ok n

/-- What compressing a stream leaves behind when it gives up: the encoder had taken `contents`, and
the octets `left` are still missing of their member. -/
structure GivenUp (E : Encoder) (writer : Writer) (outcome : Outcome) (contents : Bytes)
    (s : E.State) (w : Writer) (out left : Bytes) : Prop where
  took : writer.Took out w
  completes : E.Completes s left
  unfinished : left ≠ []
  member : IsMember (out ++ left) contents
  writer : outcome.writer = E.abandon s w

variable {reader : List ReadEvent} {writer : Writer}

theorem GivenUp.of_reaches {outcome : Outcome} (hE : E.Lawful) (h : E.Reaches s contents out)
    (htook : writer.Took out w) (houtcome : outcome.writer = E.abandon s w) :
    GivenUp E writer outcome contents s w out (E.finish s).sent where
  took := htook
  completes := hE.completes h
  unfinished := List.ne_nil_of_length_pos (Nat.lt_of_lt_of_le (by decide) (hE.trailer_le h))
  member := hE.member h
  writer := houtcome

theorem GivenUp.of_finish {outcome : Outcome} {t : E.State} {gone : Bytes} {v : Writer}
    {rest : Call E.State Unit} (hE : E.Lawful) (h : E.Reaches s contents out)
    (htook : writer.Took out w) (hbreaks : (E.finish s).Breaks gone t rest)
    (htook' : w.Took gone v) (houtcome : outcome.writer = E.abandon t v) :
    GivenUp E writer outcome contents t v (out ++ gone) rest.sent where
  took := htook.trans htook'
  completes := ((hE.completes h).broken hbreaks).1
  unfinished := hbreaks.sent_ne_nil
  member := by
    rw [List.append_assoc, ← hbreaks.sent_eq]
    exact hE.member h
  writer := houtcome

/-- When the writer takes octets again, it ends up with the member for what had been taken. -/
theorem GivenUp.served {outcome : Outcome} (h : GivenUp E writer outcome contents s w out left)
    (hserves : w.Serves left.length) :
    outcome.writer.accepted.toList = writer.accepted.toList ++ (out ++ left) := by
  rw [h.writer, h.completes.abandon_served hserves, h.took.accepted, List.append_assoc]

theorem Writer.Took.size_eq {v : Writer} (h : w.Took octets v) :
    v.accepted.size = w.accepted.size + octets.length := by
  have hlength := congrArg List.length h.accepted
  rwa [List.length_append, Array.length_toList, Array.length_toList] at hlength

/-- A breakdown in the header comes before any contents are taken. -/
theorem Writer.Broken.header {gone : Bytes} (hE : E.Lawful) (h : E.Reaches s contents out)
    (htook : writer.Took (out ++ gone) w) (hbroken : w.Broken b)
    (hlow : b.limit < writer.accepted.size + 10) : contents = [] := by
  by_contra htaken
  have hheader := hE.header_first h htaken
  have hsize := htook.size_eq
  rw [hbroken.size_eq, List.length_append] at hsize
  omega

/-- Compressing meets a breakdown that comes before the end of the member. -/
theorem compress_awaits (hE : E.Lawful) (hreader : readFailure reader = none)
    (hwriter : writer.Awaits b) (hfatal : b.fault.error.isInterrupted = false)
    (hroom : b.limit < writer.accepted.size + (E.output (pieces reader)).length) :
    (compress reader writer E).result = .error (.writer, b.fault.error) ∧
      ∃ contents s w out left, GivenUp E writer (compress reader writer E) contents s w out left ∧
        w.Broken b ∧ contents <+: delivered reader ∧
        (b.limit < writer.accepted.size + 10 → delivered reader ≠ [] → contents = []) ∧
        (SeesEnd reader writer E → contents = delivered reader) := by
  have hmeets := (hE.copy_wrote reader .start writer 0).meets hfatal hwriter
  obtain ⟨hresult, hencoder, htook⟩ | ⟨e, hresult, hstops⟩ := hE.copy_cases reader .start writer 0
  · -- the end of the reader is seen, and the breakdown is met when the contents are ended
    have hreaches : E.Reaches (E.copy reader E.start writer 0).encoder (delivered reader)
        (E.absorbAll E.start (pieces reader)).2 := by
      rw [hencoder]
      exact hE.reaches_absorbAll (pieces reader) .start
    rw [hreader, Option.elim_none, Nat.zero_add] at hresult
    rw [hresult] at hmeets
    have hcomes := (E.finish (E.copy reader E.start writer 0).encoder).run_comes
      (E.copy reader E.start writer 0).writer
    have hmeets' := ((E.finish (E.copy reader E.start writer 0).encoder).run_wrote _).meets hfatal
      hmeets
    generalize hfinish : (E.finish _).run _ = answer at hcomes hmeets'
    cases hcomes with
    | @done v htook' =>
      have hsize := (htook.trans htook').size_eq
      have hle : v.accepted.size ≤ b.limit := Writer.Awaits.size_le hmeets'
      rw [hencoder] at hsize
      change v.accepted.size = _ + (E.output (pieces reader)).length at hsize
      omega
    | @broken e gone t rest v htook' hbreaks =>
      obtain ⟨rfl, hbroken⟩ := hmeets'
      obtain ⟨hanswer, hwriter'⟩ := compress_unfinished hresult hfinish
      have hgiven := GivenUp.of_finish hE hreaches htook hbreaks htook' hwriter'
      refine ⟨hanswer, delivered reader, t, v, _, rest.sent, hgiven, hbroken, List.prefix_rfl, ?_,
        fun _ => rfl⟩
      intro hlow _
      exact hbroken.header hE hreaches hgiven.took hlow
  · obtain ⟨taken, gone, left, hprefix, -, -, htook, hreaches⟩ := hstops
    rw [hresult] at hmeets
    obtain ⟨rfl, hbroken⟩ := hmeets
    obtain ⟨hanswer, hwriter'⟩ := compress_uncopied hresult
    refine ⟨hanswer, taken, _, _, gone, _, .of_reaches hE hreaches htook hwriter', hbroken, hprefix,
      ?_, ?_⟩
    · intro hlow _
      rw [List.nil_append] at hreaches
      exact hbroken.header hE hreaches ((List.append_nil gone).symm ▸ htook) hlow
    · rintro ⟨n, hn⟩
      rw [hresult] at hn
      cases hn

theorem compress_spares (hE : E.Lawful) (hreader : readFailure reader = none)
    (hwriter : writer.Awaits b) (hfatal : b.fault.error.isInterrupted = false)
    (hroom : writer.accepted.size + (E.output (pieces reader)).length ≤ b.limit) :
    (compress reader writer E).writer.Awaits b := by
  have hserves := hwriter.serves hroom
  have hlength := E.length_output (pieces reader)
  have hmeets := (hE.copy_wrote reader .start writer 0).meets hfatal hwriter
  have hserved := hE.copy_served reader .start hserves (by omega) 0
  obtain ⟨hresult, hencoder, htook⟩ | ⟨e, hresult, _⟩ := hE.copy_cases reader .start writer 0
  swap
  · exact (hserved e hresult).elim
  rw [hreader, Option.elim_none, Nat.zero_add] at hresult
  rw [hresult] at hmeets
  have hmeets' := ((E.finish (E.copy reader E.start writer 0).encoder).run_wrote _).meets hfatal
    hmeets
  obtain ⟨v, hfinish, _⟩ := (E.finish (E.absorbAll E.start (pieces reader)).1).run_served
    (htook.serves _ hserves) (by omega)
  rw [← hencoder] at hfinish
  rw [hfinish] at hmeets'
  rw [(compress_finished hresult hfinish).2]
  exact hmeets'

/-- What compressing a stream does when the writer goes wrong.  A breakdown that is no interruption
is met exactly if it comes before the end of the member, and then it is the error that is returned.
If it lasts, the octets that were taken before it are the beginning, and not the whole, of the
member for some beginning of the contents.  If it passes, the writer ends up with one whole member
and nothing else: for nothing if it came in the header and there were contents, for all contents
if it came after the end of the reader was seen, else for some beginning of them.  When only
flushing fails, that is the error, and the writer has the member for all contents. -/
theorem compress_broken_writer (hE : E.Lawful) (hreader : readFailure reader = none) :
    (∀ (writer : Writer) (b : Writer.Breakdown), writer.Awaits b →
      b.fault.error.isInterrupted = false →
      (writer.accepted.size + (E.output (pieces reader)).length ≤ b.limit →
        (compress reader writer E).writer.Awaits b) ∧
      (b.limit < writer.accepted.size + (E.output (pieces reader)).length →
        (compress reader writer E).result = .error (.writer, b.fault.error) ∧
        (b.fault = .stall → b.fault.error.kind = .writeZero ∧ b.fault.error.text = "write zero") ∧
        (b.Lasting → ∃ octets contents member,
          (compress reader writer E).writer.accepted.toList = writer.accepted.toList ++ octets ∧
          (compress reader writer E).writer.accepted.size = b.limit ∧
          contents <+: delivered reader ∧ IsMember member contents ∧
          octets <+: member ∧ octets ≠ member) ∧
        (b.Passing → ∃ octets contents,
          (compress reader writer E).writer.accepted.toList = writer.accepted.toList ++ octets ∧
          IsMember octets contents ∧ contents <+: delivered reader ∧
          (b.limit < writer.accepted.size + 10 → delivered reader ≠ [] → contents = []) ∧
          (SeesEnd reader writer E → contents = delivered reader)))) ∧
    ∀ (writer : Writer) (e : IoError), writer.Serves (E.output (pieces reader)).length →
      writer.flush = some e →
      (compress reader writer E).result = .error (.writer, e) ∧ ∃ octets,
        (compress reader writer E).writer.accepted.toList = writer.accepted.toList ++ octets ∧
        IsMember octets (delivered reader) := by
  constructor
  · intro writer b hwriter hfatal
    refine ⟨compress_spares hE hreader hwriter hfatal, ?_⟩
    intro hroom
    obtain ⟨hresult, contents, s, w, out, left, hgiven, hbroken, hprefix, hheader, hend⟩ :=
      compress_awaits hE hreader hwriter hfatal hroom
    refine ⟨hresult, ?_, ?_, ?_⟩
    · intro hstall
      rw [hstall]
      exact ⟨rfl, rfl⟩
    · intro hlasting
      have hkept : (compress reader writer E).writer.accepted = w.accepted := by
        rw [hgiven.writer]
        exact E.abandon_refused s (hbroken.refuses hlasting)
      refine ⟨out, contents, out ++ left, ?_, ?_, hprefix, hgiven.member,
        List.prefix_append _ _, ?_⟩
      · rw [hkept, hgiven.took.accepted]
      · rw [hkept, hbroken.size_eq]
      · intro hwhole
        exact hgiven.unfinished (List.self_eq_append_right.mp hwhole)
    · intro hpassing
      exact ⟨out ++ left, contents, hgiven.served (hbroken.serves hpassing _), hgiven.member,
        hprefix, hheader, hend⟩
  · intro writer e hserves hflush
    obtain ⟨hresult, haccepted⟩ := compress_flushes hE hreader hserves
    rw [hflush] at hresult
    exact ⟨hresult, _, haccepted, hE.output_isMember _⟩

/-- Two octets in two chunks, for a writer that has no room after three octets but goes on later,
and for one that stalls for good after twelve. -/
theorem compress_broken_writer_twice :
    let reader : List ReadEvent := [.chunk [0x68], .chunk [0x69]]
    let full : Writer := ⟨[.take 3 2, .fault (.refuse .noSpace)], .take (some 4), none, #[]⟩
    let stalled : Writer := ⟨[.take 12 5], .fault .stall, none, #[]⟩
    (compress reader full).result = .error (.writer, .noSpace) ∧
      IsMember (compress reader full).writer.accepted.toList [] ∧
      (compress reader stalled).result = .error (.writer, .writeZero) ∧
      (compress reader stalled).writer.accepted.size = 12 := by
  intro reader full stalled
  have hfull : full.Awaits ⟨3, .refuse .noSpace, [], .take (some 4)⟩ :=
    ⟨rfl, by decide, by decide, by decide, by decide, rfl, rfl, rfl⟩
  have hstalled : stalled.Awaits ⟨12, .stall, [], .fault .stall⟩ :=
    ⟨rfl, by decide, by decide, by decide, by decide, rfl, rfl, rfl⟩
  have hlong : 18 ≤ (Gzip.encoder.output (pieces reader)).length :=
    (encoder_lawful.output_isMember (pieces reader)).length_le
  have hall := (compress_broken_writer encoder_lawful (rfl : readFailure reader = none)).1
  obtain ⟨hresult, _, _, hpassing⟩ := (hall full _ hfull rfl).2 (by simp [full]; omega)
  obtain ⟨octets, contents, haccepted, hmember, _, hheader, _⟩ :=
    hpassing fun _ => .inr (by decide : 0 < 4)
  obtain rfl : contents = [] := hheader (by decide) (by decide)
  obtain ⟨hresult', _, hlasting, _⟩ := (hall stalled _ hstalled rfl).2 (by simp [stalled]; omega)
  obtain ⟨_, _, _, _, hsize, _⟩ := hlasting ⟨by simp, _, rfl⟩
  refine ⟨hresult, ?_, hresult', hsize⟩
  rw [haccepted]
  exact hmember

/-- When the reader fails, its error is returned, and the writer has one whole member for what the
reader has delivered and nothing else. -/
theorem compress_failing_reader (hE : E.Lawful) {e : IoError}
    (hreader : readFailure reader = some e)
    (hwriter : writer.Serves (E.output (pieces reader)).length) :
    (compress reader writer E).result = .error (.reader, e) ∧ ∃ octets,
      (compress reader writer E).writer.accepted.toList = writer.accepted.toList ++ octets ∧
      IsMember octets (delivered reader) := by
  have hlength := E.length_output (pieces reader)
  have hserved := hE.copy_served reader .start hwriter (by omega) 0
  obtain ⟨hresult, hencoder, htook⟩ | ⟨e', hresult, _⟩ := hE.copy_cases reader .start writer 0
  swap
  · exact (hserved e' hresult).elim
  rw [hreader, Option.elim_some] at hresult
  obtain ⟨hanswer, hwriter'⟩ := compress_uncopied hresult
  rw [hencoder] at hwriter'
  have hgiven := GivenUp.of_reaches hE (hE.reaches_absorbAll (pieces reader) .start) htook hwriter'
  refine ⟨hanswer, _, hgiven.served ?_, hgiven.member⟩
  have hserves := htook.serves _ hwriter
  rwa [hlength, Nat.add_sub_cancel_left] at hserves

/-- A reader that gives two octets, is interrupted, and then fails. -/
theorem compress_failing_reader_after_two :
    let reader : List ReadEvent :=
      [.chunk [0x68, 0x69], .fault (.plain .interrupted), .fault (.custom .other "bad sector" [])]
    (compress reader ⟨[.take 5 2], .take (some 3), none, #[]⟩).result =
        .error (.reader, .custom .other "bad sector" []) ∧
      IsMember (compress reader ⟨[.take 5 2], .take (some 3), none, #[]⟩).writer.accepted.toList
        [0x68, 0x69] := by
  intro reader
  have hserves : Writer.Serves ⟨[.take 5 2], .take (some 3), none, #[]⟩
      (Gzip.encoder.output (pieces reader)).length :=
    .inr ⟨by decide, by decide, .inr (by decide : 0 < 3)⟩
  obtain ⟨hresult, octets, haccepted, hmember⟩ :=
    compress_failing_reader encoder_lawful (rfl : readFailure reader = _) hserves
  refine ⟨hresult, ?_⟩
  rw [haccepted]
  exact hmember

end GzipStage.Transfer
