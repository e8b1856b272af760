import GzipStage.Proofs.Gzip.Encoder

/-! Compressing a stream gives the member for what the reader delivers. -/
namespace GzipStage.Transfer

open Gzip

/-- The chunks that a reader gives before it ends or fails; interrupted calls are repeated. -/
def pieces : List ReadEvent → List Bytes
  | [] => []
  | .fault e :: events => if e.isInterrupted then pieces events else []
  | .chunk octets :: events => if octets = [] then [] else octets :: pieces events

/-- The octets that a reader gives before it ends or fails. -/
def delivered (events : List ReadEvent) : Bytes := (pieces events).flatten

/-- The failure that a reader meets before it ends, if there is one. -/
def readFailure : List ReadEvent → Option IoError
  | [] => none
  | .fault e :: events => if e.isInterrupted then readFailure events else some e
  | .chunk octets :: events => if octets = [] then none else readFailure events

theorem delivered_chunk (events : List ReadEvent) {octets : Bytes} (h : octets ≠ []) :
    delivered (.chunk octets :: events) = octets ++ delivered events := by
  rw [delivered, pieces, if_neg h, List.flatten_cons]
  rfl

theorem chunksOnto_reverse (size : Nat) {fuel : Nat} {octets : Bytes}
    (hfuel : octets.length ≤ fuel) (acc : List ReadEvent) :
    ∃ events, (chunksOnto size fuel acc octets).reverse = acc.reverse ++ events ∧
      delivered events = octets ∧ readFailure events = none := by
  induction fuel generalizing acc octets with
  | zero =>
    obtain rfl := List.eq_nil_of_length_eq_zero (Nat.le_zero.mp hfuel)
    exact ⟨[], by simp [chunksOnto], rfl, rfl⟩
  | succ fuel ih =>
    by_cases hnil : octets = []
    · subst hnil
      exact ⟨[], by simp [chunksOnto], rfl, rfl⟩
    · have hlen : (octets.drop (max 1 size)).length ≤ fuel := by
        rw [List.length_drop]
        omega
      obtain ⟨events, hevents, hdelivered, hfailure⟩ :=
        ih hlen (.chunk (octets.take (max 1 size)) :: acc)
      have hpiece : octets.take (max 1 size) ≠ [] := by
        rw [Ne, List.take_eq_nil_iff]
        have := Nat.le_max_left 1 size
        simp only [hnil, or_false]
        omega
      refine ⟨.chunk (octets.take (max 1 size)) :: events, ?_, ?_, ?_⟩
      · simp only [chunksOnto, if_neg hnil, hevents, List.reverse_cons, List.append_assoc,
          List.singleton_append]
      · rw [delivered_chunk _ hpiece, hdelivered, List.take_append_drop]
      · rw [readFailure, if_neg hpiece, hfailure]

theorem readerOf_delivers (octets : Bytes) :
    delivered (readerOf octets) = octets ∧ readFailure (readerOf octets) = none := by
  obtain ⟨events, hevents, hdelivered, hfailure⟩ :=
    chunksOnto_reverse bufferSize (le_refl octets.length) []
  simp only [List.reverse_nil, List.nil_append] at hevents
  rw [readerOf, chunks, hevents]
  exact ⟨hdelivered, hfailure⟩

variable {E : Encoder} {s : E.State} {contents out octets : Bytes} {fuel : Nat} {w : Writer}

/-- What was left of an operation that broke off comes to what the operation comes to. -/
theorem Call.Breaks.comes {σ α : Type} {call rest : Call σ α} {gone : Bytes} {t : σ} {v : Writer}
    {answer : Except IoError α × σ × Writer} (h : call.Breaks gone t rest) (htook : w.Took gone v)
    (hrest : rest.Comes v answer) : call.Comes w answer := by
  cases hrest with
  | done htook' =>
    rw [h.result_eq, h.state_eq]
    exact .done (h.sent_eq ▸ htook.trans htook')
  | broken htook' hbreaks => exact .broken (htook.trans htook') (h.trans hbreaks)

namespace Encoder

/-- Repeating interrupted calls comes to what one call can come to. -/
theorem Lawful.writeRepeating_comes (hE : E.Lawful) (fuel : Nat) (h : E.Reaches s contents out)
    (hnil : octets ≠ []) (w : Writer) :
    (E.write s octets).Comes w (E.writeRepeating fuel s w octets) := by
  induction fuel generalizing s out w with
  | zero => exact (E.write s octets).run_comes w
  | succ fuel ih =>
    have hcomes := (E.write s octets).run_comes w
    unfold writeRepeating
    generalize (E.write s octets).run w = answer at hcomes ⊢
    cases hcomes with
    | done htook => exact .done htook
    | @broken e gone t rest v htook hbreaks =>
      dsimp only
      split
      · have hrest := ih (h.broke hnil hbreaks) v
        rw [hE.write_again h hnil hbreaks] at hrest
        exact hbreaks.comes htook hrest
      · exact .broken htook hbreaks

/-- An encoder that is offered octets, and would send `planned` for them, has stopped in between:
some have been taken, and something is still to be sent. -/
def Stops (E : Encoder) (contents out offered planned : Bytes) (w : Writer) (t : E.State)
    (v : Writer) : Prop :=
  ∃ taken gone left, taken <+: offered ∧ planned = gone ++ left ∧ left ≠ [] ∧ w.Took gone v ∧
    E.Reaches t (contents ++ taken) (out ++ gone)

variable {t : E.State} {v u : Writer} {offered planned first front : Bytes}

theorem Stops.before (h : E.Stops contents out offered planned w t v) (more later : Bytes) :
    E.Stops contents out (offered ++ more) (planned ++ later) w t v := by
  obtain ⟨taken, gone, left, htaken, rfl, hleft, htook, hreaches⟩ := h
  exact ⟨taken, gone, left ++ later, htaken.trans (List.prefix_append _ _),
    List.append_assoc _ _ _, List.append_ne_nil_of_left_ne_nil hleft _, htook, hreaches⟩

theorem Stops.after (h : E.Stops (contents ++ front) (out ++ first) offered planned u t v)
    (htook : w.Took first u) :
    E.Stops contents out (front ++ offered) (first ++ planned) w t v := by
  obtain ⟨taken, gone, left, htaken, rfl, hleft, htook', hreaches⟩ := h
  refine ⟨front ++ taken, first ++ gone, left, (List.prefix_append_right_inj front).mpr htaken,
    (List.append_assoc _ _ _).symm, hleft, htook.trans htook', ?_⟩
  rwa [List.append_assoc, List.append_assoc] at hreaches

theorem absorb_succ (hnil : octets ≠ []) : E.absorb (fuel + 1) s octets =
    ((E.absorb fuel (E.write s octets).state (octets.drop (E.write s octets).result)).1,
      (E.write s octets).sent ++
        (E.absorb fuel (E.write s octets).state (octets.drop (E.write s octets).result)).2) := by
  rw [absorb, if_neg hnil]

/-- Feeding octets to an encoder comes to what it makes of them by itself, or stops in between. -/
theorem Lawful.feed_cases (hE : E.Lawful) (h : E.Reaches s contents out)
    (hfuel : octets.length ≤ fuel) (w : Writer) :
    (∃ v, E.feed fuel s w octets = (none, (E.absorb fuel s octets).1, v) ∧
        w.Took (E.absorb fuel s octets).2 v) ∨
      ∃ e t v, E.feed fuel s w octets = (some e, t, v) ∧
        E.Stops contents out octets (E.absorb fuel s octets).2 w t v := by
  induction fuel generalizing s contents out octets w with
  | zero =>
    obtain rfl := List.eq_nil_of_length_eq_zero (Nat.le_zero.mp hfuel)
    exact .inl ⟨w, rfl, Writer.Took.refl w⟩
  | succ fuel ih =>
    by_cases hnil : octets = []
    · subst hnil
      exact .inl ⟨w, rfl, Writer.Took.refl w⟩
    · have hcomes := hE.writeRepeating_comes w.events.length h hnil w
      obtain ⟨hpos, -⟩ := hE.takes h hnil
      rw [absorb_succ hnil]
      unfold feed
      rw [if_neg hnil]
      generalize E.writeRepeating w.events.length s w octets = answer at hcomes ⊢
      cases hcomes with
      | @broken e gone t rest v htook hbreaks =>
        refine .inr ⟨e, t, v, rfl, ?_⟩
        have hstops : E.Stops contents out [] (E.write s octets).sent w t v :=
          ⟨[], gone, rest.sent, List.nil_prefix, hbreaks.sent_eq, hbreaks.sent_ne_nil, htook,
            by simpa using h.broke hnil hbreaks⟩
        exact hstops.before octets _
      | @done v htook =>
        obtain ⟨n, hn⟩ := Nat.exists_eq_succ_of_ne_zero hpos.ne'
        have hreaches := h.wrote hnil
        have hshort : (octets.drop (E.write s octets).result).length ≤ fuel := by
          rw [List.length_drop]
          omega
        rw [hn] at hreaches hshort ⊢
        obtain ⟨u, hfeed, htook'⟩ | ⟨e, t, u, hfeed, hstops⟩ := ih hreaches hshort v
        · exact .inl ⟨u, hfeed, htook.trans htook'⟩
        · refine .inr ⟨e, t, u, hfeed, ?_⟩
          have hall := hstops.after htook
          rwa [List.take_append_drop] at hall

/-- Copying comes to what the encoder makes of all chunks by itself, and to what the reader says at
its end; or it stops in between. -/
theorem Lawful.copy_cases (hE : E.Lawful) (events : List ReadEvent) (h : E.Reaches s contents out)
    (w : Writer) (count : Nat) :
    ((E.copy events s w count).result = (readFailure events).elim
          (.ok (count + (delivered events).length)) (fun e => .error (.reader, e)) ∧
        (E.copy events s w count).encoder = (E.absorbAll s (pieces events)).1 ∧
        w.Took (E.absorbAll s (pieces events)).2 (E.copy events s w count).writer) ∨
      ∃ e, (E.copy events s w count).result = .error (.writer, e) ∧
        E.Stops contents out (delivered events) (E.absorbAll s (pieces events)).2 w
          (E.copy events s w count).encoder (E.copy events s w count).writer := by
  induction events generalizing s contents out w count with
  | nil => exact .inl ⟨rfl, rfl, Writer.Took.refl w⟩
  | cons event events ih =>
    cases event with
    | fault e =>
      unfold copy delivered pieces readFailure
      split
      · exact ih h w count
      · exact .inl ⟨rfl, rfl, Writer.Took.refl w⟩
    | chunk octets =>
      unfold copy readFailure
      split
      next hnil =>
        refine .inl ⟨?_, ?_, ?_⟩
        · simp [delivered, pieces, hnil]
        · simp [pieces, hnil, absorbAll]
        · simpa [pieces, hnil, absorbAll] using Writer.Took.refl w
      next hnil =>
        have hpieces : pieces (.chunk octets :: events) = octets :: pieces events := if_neg hnil
        rw [delivered_chunk events hnil, hpieces, absorbAll]
        obtain ⟨v, hfeed, htook⟩ | ⟨e, t, v, hfeed, hstops⟩ :=
          hE.feed_cases h (le_refl octets.length) w
        · rw [hfeed]
          have hmore := ih (hE.reaches_absorb h (le_refl octets.length)) v (count + octets.length)
          obtain ⟨hresult, hencoder, htook'⟩ | ⟨e, hresult, hstops⟩ := hmore
          · refine .inl ⟨?_, hencoder, htook.trans htook'⟩
            rw [hresult, List.length_append, Nat.add_assoc]
          · exact .inr ⟨e, hresult, hstops.after htook⟩
        · rw [hfeed]
          exact .inr ⟨e, rfl, hstops.before _ _⟩

/-! ### Writers that go along -/

variable {room : Nat}

theorem writeRepeating_served (fuel : Nat) (hserves : w.Serves room)
    (hle : (E.write s octets).sent.length ≤ room) :
    ∃ v, E.writeRepeating fuel s w octets =
        (.ok (E.write s octets).result, (E.write s octets).state, v) ∧
      w.Took (E.write s octets).sent v := by
  obtain ⟨v, hrun, htook⟩ := (E.write s octets).run_served hserves hle
  refine ⟨v, ?_, htook⟩
  cases fuel with
  | zero => exact hrun
  | succ fuel => rw [writeRepeating, hrun]

theorem Lawful.feed_served (hE : E.Lawful) (h : E.Reaches s contents out)
    (hfuel : octets.length ≤ fuel) (hserves : w.Serves room)
    (hle : (E.absorb fuel s octets).2.length ≤ room) : (E.feed fuel s w octets).1 = none := by
  induction fuel generalizing s contents out octets w room with
  | zero =>
    obtain rfl := List.eq_nil_of_length_eq_zero (Nat.le_zero.mp hfuel)
    rfl
  | succ fuel ih =>
    unfold feed
    split
    · rfl
    next hnil =>
      rw [absorb_succ hnil, List.length_append] at hle
      obtain ⟨v, hwrite, htook⟩ :=
        writeRepeating_served w.events.length hserves (Nat.le_of_add_right_le hle)
      obtain ⟨hpos, -⟩ := hE.takes h hnil
      obtain ⟨n, hn⟩ := Nat.exists_eq_succ_of_ne_zero hpos.ne'
      have hreaches := h.wrote hnil
      rw [hwrite]
      rw [hn] at hreaches hle ⊢
      apply ih hreaches _ (htook.serves room hserves)
      · omega
      · rw [List.length_drop]
        omega

/-- Copying does not fail on the writer's side when the writer serves what the encoder sends. -/
theorem Lawful.copy_served (hE : E.Lawful) (events : List ReadEvent) (h : E.Reaches s contents out)
    (hserves : w.Serves room) (hle : (E.absorbAll s (pieces events)).2.length ≤ room)
    (count : Nat) (e : IoError) : (E.copy events s w count).result ≠ .error (.writer, e) := by
  induction events generalizing s contents out w room count with
  | nil =>
    intro hresult
    cases hresult
  | cons event events ih =>
    cases event with
    | fault e' =>
      unfold copy
      unfold pieces at hle
      split
      next hagain =>
        rw [if_pos hagain] at hle
        exact ih h hserves hle count
      · intro hresult
        cases hresult
    | chunk octets =>
      unfold copy
      unfold pieces at hle
      split
      · intro hresult
        cases hresult
      next hnil =>
        rw [if_neg hnil, absorbAll, List.length_append] at hle
        have hnone := hE.feed_served h (le_refl octets.length) hserves (by omega)
        obtain ⟨v, hfeed, htook⟩ | ⟨e, t, v, hfeed, _⟩ :=
          hE.feed_cases h (le_refl octets.length) w
        · rw [hfeed]
          apply ih (hE.reaches_absorb h (le_refl octets.length)) (htook.serves room hserves)
          omega
        · rw [hfeed] at hnone
          cases hnone

end Encoder

/-! ### The end of the stream -/

variable {reader : List ReadEvent} {writer : Writer} {n : Nat}

theorem compress_uncopied {failure : Side × IoError}
    (hcopy : (E.copy reader E.start writer 0).result = .error failure) :
    (compress reader writer E).result = .error failure ∧
      (compress reader writer E).writer = E.abandon (E.copy reader E.start writer 0).encoder
        (E.copy reader E.start writer 0).writer := by
  unfold compress
  dsimp only
  rw [hcopy]
  exact ⟨rfl, rfl⟩

theorem compress_unfinished {e : IoError}
    (hcopy : (E.copy reader E.start writer 0).result = .ok n)
    (hfinish : (E.finish (E.copy reader E.start writer 0).encoder).run
      (E.copy reader E.start writer 0).writer = (.error e, s, w)) :
    (compress reader writer E).result = .error (.writer, e) ∧
      (compress reader writer E).writer = E.abandon s w := by
  unfold compress
  dsimp only
  rw [hcopy, hfinish]
  exact ⟨rfl, rfl⟩

theorem compress_finished (hcopy : (E.copy reader E.start writer 0).result = .ok n)
    (hfinish : (E.finish (E.copy reader E.start writer 0).encoder).run
      (E.copy reader E.start writer 0).writer = (.ok (), s, w)) :
    (compress reader writer E).result =
        w.flush.elim (.ok n) (fun e => .error (.writer, e)) ∧
      (compress reader writer E).writer = w := by
  unfold compress
  dsimp only
  rw [hcopy, hfinish]
  dsimp only
  cases w.flush with
  | none => exact ⟨rfl, rfl⟩
  | some e => exact ⟨rfl, rfl⟩

/-- When compressing succeeds the reader has ended by itself, all of its octets are counted, and
the writer has taken what the encoder makes of them and nothing else. -/
theorem compress_ok (hE : E.Lawful) (h : (compress reader writer E).result = .ok n) :
    readFailure reader = none ∧ n = (delivered reader).length ∧
      (compress reader writer E).writer.accepted.toList =
        writer.accepted.toList ++ E.output (pieces reader) := by
  obtain ⟨hresult, hencoder, htook⟩ | ⟨e, hresult, _⟩ := hE.copy_cases reader .start writer 0
  swap
  · rw [(compress_uncopied hresult).1] at h
    cases h
  cases hreader : readFailure reader with
  | some e =>
    rw [hreader] at hresult
    rw [(compress_uncopied hresult).1] at h
    cases h
  | none =>
    rw [hreader, Option.elim_none, Nat.zero_add] at hresult
    have hcomes := (E.finish (E.copy reader E.start writer 0).encoder).run_comes
      (E.copy reader E.start writer 0).writer
    generalize hfinish : (E.finish _).run _ = answer at hcomes
    cases hcomes with
    | broken _ _ =>
      rw [(compress_unfinished hresult hfinish).1] at h
      cases h
    | done htook' =>
      obtain ⟨hanswer, hwriter⟩ := compress_finished hresult hfinish
      rw [hencoder] at htook'
      rw [hanswer] at h
      rw [hwriter, (htook.trans htook').accepted]
      refine ⟨rfl, ?_, rfl⟩
      generalize Writer.flush _ = flush at h
      cases flush with
      | none => exact (Except.ok.inj h).symm
      | some e => cases h

/-- When no call to the writer goes wrong, it has all that the encoder sends, and only flushing can
fail. -/
theorem compress_flushes (hE : E.Lawful) (hreader : readFailure reader = none)
    (hserves : writer.Serves (E.output (pieces reader)).length) :
    (compress reader writer E).result =
        writer.flush.elim (.ok (delivered reader).length) (fun e => .error (.writer, e)) ∧
      (compress reader writer E).writer.accepted.toList =
        writer.accepted.toList ++ E.output (pieces reader) := by
  have hlength := E.length_output (pieces reader)
  have hserved := hE.copy_served reader .start hserves (by omega) 0
  obtain ⟨hresult, hencoder, htook⟩ | ⟨e, hresult, _⟩ := hE.copy_cases reader .start writer 0
  swap
  · exact (hserved e hresult).elim
  rw [hreader, Option.elim_none, Nat.zero_add] at hresult
  obtain ⟨v, hfinish, htook'⟩ := (E.finish (E.absorbAll E.start (pieces reader)).1).run_served
    (htook.serves _ hserves) (by omega)
  rw [← hencoder] at hfinish
  obtain ⟨hanswer, hwriter⟩ := compress_finished hresult hfinish
  have hall := htook.trans htook'
  rw [hanswer, hwriter, hall.flush, hall.accepted]
  exact ⟨rfl, rfl⟩

/-- What compressing a stream promises.  If it succeeds, the reader has ended by itself, the count
is that of its octets, and the writer has taken one member for them and nothing else.  And it
succeeds unless the reader fails or a call to the writer goes wrong. -/
theorem compress_writes_member (hE : E.Lawful) (reader : List ReadEvent) (writer : Writer) :
    (∀ n, (compress reader writer E).result = .ok n →
      readFailure reader = none ∧ n = (delivered reader).length ∧ ∃ octets,
        (compress reader writer E).writer.accepted.toList = writer.accepted.toList ++ octets ∧
        IsMember octets (delivered reader)) ∧
    (readFailure reader = none → writer.Serves (E.output (pieces reader)).length →
      writer.flush = none → ∃ n, (compress reader writer E).result = .ok n) := by
  constructor
  · intro n hn
    obtain ⟨hreader, hcount, haccepted⟩ := compress_ok hE hn
    exact ⟨hreader, hcount, _, haccepted, hE.output_isMember _⟩
  · intro hreader hserves hflush
    have hresult := (compress_flushes hE hreader hserves).1
    rw [hflush] at hresult
    exact ⟨_, hresult⟩

/-- Three octets in two chunks, the first call being interrupted, for a writer that takes three
octets by twos and from then on up to four at a time. -/
theorem compress_writes_member_in_pieces :
    let reader : List ReadEvent :=
      [.fault (.plain .interrupted), .chunk [0x68, 0x69], .chunk [0x68]]
    let writer : Writer := ⟨[.take 3 2], .take (some 4), none, #[]⟩
    (compress reader writer).result = .ok 3 ∧
      IsMember (compress reader writer).writer.accepted.toList [0x68, 0x69, 0x68] := by
  intro reader writer
  have hserves : writer.Serves (Gzip.encoder.output (pieces reader)).length :=
    .inr ⟨by decide, by decide, .inr (by decide : 0 < 4)⟩
  obtain ⟨hok, hdone⟩ := compress_writes_member encoder_lawful reader writer
  obtain ⟨n, hn⟩ := hdone rfl hserves rfl
  obtain ⟨_, rfl, octets, haccepted, hmember⟩ := hok n hn
  rw [haccepted]
  exact ⟨hn, hmember⟩

end GzipStage.Transfer
