import GzipStage.Proofs.Transfer.Encoder

/-! The encoder of this library is lawful: what it has sent and what it still sends are together the
member for what it has taken. -/
namespace GzipStage.Gzip

open Deflate Transfer

namespace Draft

/-- The contents have been taken and not ended, and `out` has been sent. -/
structure Open (d : Draft) (contents out : Bytes) : Prop where
  ended : d.ended = false
  deflater : d.deflater = Deflater.empty.pushAll contents
  written_le : d.written ≤ d.due
  due_le : d.due ≤ d.deflater.settled.size
  header_first : contents = [] ∨ d.header = []
  out_eq : out ++ d.header = Gzip.header ++ d.deflater.settled.toList.take d.written

variable {d t : Draft} {contents out octets gone left : Bytes}

theorem start_open : start.Open [] [] where
  ended := rfl
  deflater := rfl
  written_le := le_rfl
  due_le := le_rfl
  header_first := .inl rfl
  out_eq := rfl

theorem dueOctets_eq (d : Draft) :
    d.dueOctets = (d.deflater.settled.toList.take d.due).drop d.written := by
  rw [dueOctets, Array.toList_extract, List.extract_eq_take_drop, List.drop_take]

theorem dueOctets_nil (h : d.written = d.due) : d.dueOctets = [] := by
  rw [dueOctets_eq, h]
  apply List.drop_eq_nil_of_le
  rw [List.length_take]
  exact Nat.min_le_left _ _

theorem length_dueOctets (h : d.due ≤ d.deflater.settled.size) :
    d.dueOctets.length = d.due - d.written := by
  rw [dueOctets, Array.length_toList, Array.size_extract, Nat.min_eq_left h]

/-- What is left of the octets that are due is due when they break off. -/
theorem dueOctets_left (hwritten : d.written ≤ d.due) (hdue : d.due ≤ d.deflater.settled.size)
    (hleft : d.dueOctets = gone ++ left) :
    ({ d with written := d.due - left.length } : Draft).dueOctets = left := by
  have hlength := congrArg List.length hleft
  rw [length_dueOctets hdue, List.length_append] at hlength
  have hskip : d.due - left.length = d.written + gone.length := by omega
  rw [dueOctets_eq]
  dsimp only
  rw [hskip, ← List.drop_drop, ← dueOctets_eq, hleft, List.drop_left]

theorem close_of_ended (h : d.ended = true) : d.close = d := if_pos h

/-! ### Taking contents -/

theorem write_sent (d : Draft) (octets : Bytes) :
    (d.write octets).sent = d.header ++ d.dueOctets := by
  unfold write sendHeader sendDue
  rw [Call.sending_sent, Call.sending_sent]
  exact congrArg (d.header ++ ·) (List.append_nil _)

theorem write_result (d : Draft) (octets : Bytes) : (d.write octets).result = octets.length := by
  unfold write sendHeader sendDue
  rw [Call.sending_result, Call.sending_result]
  rfl

theorem write_state (d : Draft) (octets : Bytes) :
    (d.write octets).state = ({ d with header := [], written := d.due } : Draft).take octets := by
  unfold write sendHeader sendDue
  rw [Call.sending_state, Call.sending_state]
  rfl

theorem Open.header_broken (h : d.Open contents out) (hleft : d.header = gone ++ left) :
    ({ d with header := left } : Draft).Open contents (out ++ gone) := by
  refine { h with header_first := ?_, out_eq := ?_ }
  · apply h.header_first.imp_right
    intro hnil
    exact (List.append_eq_nil_iff.mp (hleft.symm.trans hnil)).2
  · have hout := h.out_eq
    rw [hleft, ← List.append_assoc] at hout
    exact hout

theorem Open.header_sent (h : d.Open contents out) :
    ({ d with header := [] } : Draft).Open contents (out ++ d.header) :=
  h.header_broken (List.append_nil d.header).symm

theorem Open.due_broken (h : d.Open contents out) (hheader : d.header = [])
    (hleft : d.dueOctets = gone ++ left) :
    ({ d with written := d.due - left.length } : Draft).Open contents (out ++ gone) := by
  have hlength := congrArg List.length hleft
  have hwritten := h.written_le
  rw [length_dueOctets h.due_le, List.length_append] at hlength
  refine { h with written_le := Nat.sub_le _ _, out_eq := ?_ }
  have hskip : d.due - left.length = d.written + gone.length := by omega
  have hgone : (d.deflater.settled.toList.drop d.written).take gone.length = gone := by
    have hprefix : gone <+: d.deflater.settled.toList.drop d.written := by
      apply (List.prefix_append gone left).trans
      rw [← hleft, dueOctets_eq, List.drop_take]
      exact List.take_prefix _ _
    exact (List.prefix_iff_eq_take.mp hprefix).symm
  have hout := h.out_eq
  dsimp only
  rw [hheader, List.append_nil] at hout ⊢
  rw [hout, hskip, List.append_assoc, List.take_add, hgone]

theorem Open.due_sent (h : d.Open contents out) (hheader : d.header = []) :
    ({ d with written := d.due } : Draft).Open contents (out ++ d.dueOctets) :=
  h.due_broken hheader (List.append_nil d.dueOctets).symm

theorem Open.take (h : d.Open contents out) (hheader : d.header = []) (hdue : d.written = d.due)
    (octets : Bytes) : (d.take octets).Open (contents ++ octets) out := by
  have hdeflater : d.deflater.pushAll octets = Deflater.empty.pushAll (contents ++ octets) := by
    rw [h.deflater, Deflater.pushAll_append]
  have hprefix := d.deflater.settled_prefix_pushAll octets
  have hsize : d.deflater.settled.size ≤ (d.deflater.pushAll octets).settled.size := by
    simpa using hprefix.length_le
  have hle := h.due_le
  refine ⟨h.ended, hdeflater, ?_, ?_, .inr hheader, ?_⟩
  · unfold Draft.take
    dsimp only
    split <;> omega
  · unfold Draft.take
    dsimp only
    split <;> omega
  · obtain ⟨more, hmore⟩ := hprefix
    change out ++ d.header =
      Gzip.header ++ (d.deflater.pushAll octets).settled.toList.take d.written
    rw [← hmore, List.take_append_of_le_length (by simp; omega), h.out_eq]

theorem Open.wrote (h : d.Open contents out) (octets : Bytes) :
    (d.write octets).state.Open (contents ++ octets) (out ++ (d.write octets).sent) := by
  have hsent := (h.header_sent.due_sent rfl).take rfl rfl octets
  rw [List.append_assoc] at hsent
  rw [write_state, write_sent]
  exact hsent

/-- A write that breaks off in the header or in what is due keeps the encoder open, and is taken up
there when it is repeated. -/
theorem Open.write_broken (h : d.Open contents out) {rest : Call Draft Nat}
    (hbreaks : (d.write octets).Breaks gone t rest) :
    t.Open contents (out ++ gone) ∧ t.write octets = rest := by
  obtain ⟨left, hleft, rfl, rfl⟩ | ⟨more, rfl, hmore⟩ := Call.breaks_sending hbreaks
  · exact ⟨h.header_broken hleft, rfl⟩
  · obtain ⟨left, hleft, rfl, rfl⟩ | ⟨_, _, hnone⟩ := Call.breaks_sending hmore
    · have hopen := h.header_sent
      have hagain := dueOctets_left hopen.written_le hopen.due_le hleft
      rw [← List.append_assoc]
      refine ⟨hopen.due_broken rfl hleft, ?_⟩
      unfold write sendHeader sendDue
      dsimp only
      rw [Call.sending_nil, hagain]
    · cases hnone

theorem reaches_open {s : Gzip.encoder.State} (h : Gzip.encoder.Reaches s contents out) :
    Open s contents out := by
  induction h with
  | start => exact start_open
  | @wrote s contents out octets _ _ ih =>
    have hall : (Gzip.encoder.write s octets).result = octets.length := write_result s octets
    rw [hall, List.take_length]
    exact ih.wrote octets
  | broke _ _ hbreaks ih => exact (ih.write_broken hbreaks).1

/-! ### Ending the contents -/

def finishBody (d : Draft) : Call Draft Unit :=
  d.close.sendDue fun d => d.sendTrailer fun d => .answer () d

theorem finish_sent (d : Draft) : d.finish.sent =
    d.header ++ (({ d with header := [] } : Draft).close.dueOctets ++
      ({ d with header := [] } : Draft).close.trailer) := by
  unfold finish sendHeader sendDue sendTrailer
  rw [Call.sending_sent, Call.sending_sent, Call.sending_sent]
  exact congrArg (fun trailer => d.header ++ (_ ++ trailer)) (List.append_nil _)

theorem finish_of_closed (hheader : d.header = []) (hended : d.ended = true) :
    d.finish = d.sendDue fun d => d.sendTrailer fun d => .answer () d := by
  have hd : ({ d with header := [] } : Draft) = d := by rw [← hheader]
  unfold finish sendHeader
  rw [hheader, Call.sending_nil, hd]
  dsimp only
  rw [close_of_ended hended]

theorem Open.close_settled (h : d.Open contents out) :
    d.close.deflater.settled.toList = deflate contents := by
  unfold close
  rw [h.ended, h.deflater]
  rfl

theorem Open.close_due (h : d.Open contents out) : d.close.due = d.close.deflater.settled.size := by
  unfold close
  rw [h.ended]
  rfl

theorem Open.close_written (h : d.Open contents out) : d.close.written = d.written := by
  unfold close
  rw [h.ended]
  rfl

theorem Open.close_trailer (h : d.Open contents out) :
    d.close.trailer = Gzip.trailer (crc32 contents) contents.length := by
  simp [close, h.ended, h.deflater]

theorem Open.close_written_le (h : d.Open contents out) : d.close.written ≤ d.close.due := by
  have hsize := (d.deflater.settled_prefix_finish).length_le
  have hwritten := h.written_le.trans h.due_le
  have hclosed : d.close.deflater = d.deflater.finish := by
    unfold close
    rw [h.ended]
    rfl
  rw [h.close_written, h.close_due, hclosed]
  simp only [Array.length_toList] at hsize
  omega

theorem close_ended (d : Draft) : d.close.ended = true := by
  unfold close
  split
  next h => exact h
  next => rfl

theorem Open.finish_whole (h : d.Open contents out) : out ++ d.finish.sent = encode contents := by
  have hopen := h.header_sent
  have hout := hopen.out_eq
  have hall : (deflate contents).take d.written = d.deflater.settled.toList.take d.written := by
    obtain ⟨more, hmore⟩ := d.deflater.settled_prefix_finish
    have hbegins : d.deflater.settled.toList ++ more = deflate contents := by
      rw [hmore, h.deflater]
      rfl
    rw [← hbegins, List.take_append_of_le_length]
    exact h.written_le.trans h.due_le
  have hdue : ({ d with header := [] } : Draft).close.dueOctets =
      (deflate contents).drop d.written := by
    rw [dueOctets_eq, hopen.close_due, ← Array.length_toList, List.take_length,
      hopen.close_settled, hopen.close_written]
  dsimp only at hout
  rw [List.append_nil] at hout
  rw [finish_sent, hdue, hopen.close_trailer, ← List.append_assoc, hout, ← hall, encode,
    ← List.append_assoc, List.append_assoc Gzip.header, List.take_append_drop]

theorem finishBody_again {rest : Call Draft Unit} (hwritten : d.close.written ≤ d.close.due)
    (hdue : d.close.due ≤ d.close.deflater.settled.size) (hheader : d.close.header = [])
    (hbreaks : d.finishBody.Breaks gone t rest) : t.finish = rest := by
  obtain ⟨left, hleft, rfl, rfl⟩ | ⟨more, rfl, hmore⟩ := Call.breaks_sending hbreaks
  · rw [finish_of_closed, sendDue, dueOctets_left hwritten hdue hleft]
    · exact hheader
    · exact d.close_ended
  · obtain ⟨left, hleft, rfl, rfl⟩ | ⟨_, _, hnone⟩ := Call.breaks_sending hmore
    · rw [finish_of_closed, sendDue, dueOctets_nil, Call.sending_nil, sendTrailer]
      · rfl
      · exact hheader
      · exact d.close_ended
    · cases hnone

theorem Open.finish_again (h : d.Open contents out) {rest : Call Draft Unit}
    (hbreaks : d.finish.Breaks gone t rest) : t.finish = rest := by
  obtain ⟨left, hleft, rfl, rfl⟩ | ⟨more, rfl, hmore⟩ := Call.breaks_sending hbreaks
  · rfl
  · have hopen := h.header_sent
    apply finishBody_again hopen.close_written_le hopen.close_due.le _ hmore
    unfold close
    split <;> rfl

theorem finish_silent (d : Draft) : d.finish.state.leave.sent = [] := by
  have hstate : d.finish.state =
      { ({ d with header := [] } : Draft).close with
        written := ({ d with header := [] } : Draft).close.due, trailer := [] } := by
    unfold finish sendHeader sendDue sendTrailer
    rw [Call.sending_state, Call.sending_state, Call.sending_state]
    rfl
  rw [hstate, leave, close_of_ended, sendDue, dueOctets_nil]
  · rfl
  · rfl
  · exact close_ended _

end Draft

/-- What the encoder has sent and what it still sends are together the member for what it has
taken. -/
theorem encoder_whole {s : Draft} {contents out : Bytes}
    (h : encoder.Reaches s contents out) : out ++ (encoder.finish s).sent = encode contents :=
  (Draft.reaches_open h).finish_whole

theorem encoder_lawful : encoder.Lawful where
  takes := by
    intro s contents out octets _ hnil
    have hresult : (encoder.write s octets).result = octets.length := Draft.write_result s octets
    rw [hresult]
    exact ⟨List.length_pos_iff.mpr hnil, le_rfl⟩
  write_again := by
    intro s t contents out octets gone rest h _ hbreaks
    exact ((Draft.reaches_open h).write_broken hbreaks).2
  finish_again := by
    intro s t contents out gone rest h hbreaks
    exact (Draft.reaches_open h).finish_again hbreaks
  header_first := by
    intro s contents out h hcontents
    have hopen := Draft.reaches_open h
    have hout := congrArg List.length hopen.out_eq
    rw [hopen.header_first.resolve_left hcontents, List.append_nil, List.length_append] at hout
    exact hout ▸ Nat.le_add_right 10 _
  member := by
    intro s contents out h
    rw [encoder_whole h]
    exact encode_isMember contents
  silent := by
    intro s contents out _
    exact Draft.finish_silent s

end GzipStage.Gzip
