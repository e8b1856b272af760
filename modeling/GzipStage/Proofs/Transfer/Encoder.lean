import GzipStage.Proofs.Gzip.Member
import GzipStage.Proofs.Transfer.Writer
import GzipStage.Transfer.Compress

/-! What is asked of an encoder, and what follows from it for a single operation. -/
namespace GzipStage.Transfer

open Gzip

namespace Call

variable {σ α : Type} {call next rest : Call σ α} {gone : Bytes} {s : σ} {w : Writer}

/-- All that an operation sends when no call of the writer goes wrong. -/
def sent : Call σ α → Bytes
  | .answer _ _ => []
  | .send octets _ next => octets ++ next.sent

def result : Call σ α → α
  | .answer a _ => a
  | .send _ _ next => next.result

def state : Call σ α → σ
  | .answer _ s => s
  | .send _ _ next => next.state

/-- An operation breaks off when it has sent some octets and not the next one: the encoder is left
in a state, and part of the operation is left undone. -/
inductive Breaks : Call σ α → (gone : Bytes) → (left : σ) → (undone : Call σ α) → Prop
  | here {gone left : Bytes} {kept : Bytes → σ} {next : Call σ α} (hleft : left ≠ []) :
      Breaks (.send (gone ++ left) kept next) gone (kept left) (.send left kept next)
  | later {octets gone : Bytes} {kept : Bytes → σ} {next rest : Call σ α} {s : σ}
      (h : Breaks next gone s rest) : Breaks (.send octets kept next) (octets ++ gone) s rest

theorem Breaks.sent_eq (h : call.Breaks gone s rest) : call.sent = gone ++ rest.sent := by
  induction h with
  | here hleft => rw [Call.sent, Call.sent, List.append_assoc]
  | later _ ih => rw [Call.sent, ih, List.append_assoc]

theorem Breaks.result_eq (h : call.Breaks gone s rest) : rest.result = call.result := by
  induction h with
  | here hleft => rfl
  | later _ ih => exact ih

theorem Breaks.state_eq (h : call.Breaks gone s rest) : rest.state = call.state := by
  induction h with
  | here hleft => rfl
  | later _ ih => exact ih

theorem Breaks.sent_ne_nil (h : call.Breaks gone s rest) : rest.sent ≠ [] := by
  induction h with
  | here hleft => exact List.append_ne_nil_of_left_ne_nil hleft _
  | later _ ih => exact ih

theorem Breaks.trans {more : Bytes} {t : σ} {undone : Call σ α} (h : call.Breaks gone s rest)
    (h' : rest.Breaks more t undone) : call.Breaks (gone ++ more) t undone := by
  induction h with
  | @here gone left kept next _ =>
    generalize hrest : Call.send left kept next = rest at h'
    cases h' with
    | @here more left' kept' next' hleft' =>
      obtain ⟨rfl, rfl, rfl⟩ := Call.send.inj hrest
      rw [← List.append_assoc]
      exact .here hleft'
    | @later octets more kept' next' rest' t h' =>
      obtain ⟨rfl, rfl, rfl⟩ := Call.send.inj hrest
      rw [← List.append_assoc]
      exact .later h'
  | @later octets gone kept next rest s _ ih =>
    rw [List.append_assoc]
    exact .later (ih h')

theorem sending_sent (octets : Bytes) (kept : Bytes → σ) (next : Call σ α) :
    (sending octets kept next).sent = octets ++ next.sent := by
  unfold sending
  split
  next h => rw [h, List.nil_append]
  next h => rfl

theorem sending_result (octets : Bytes) (kept : Bytes → σ) (next : Call σ α) :
    (sending octets kept next).result = next.result := by
  unfold sending
  split <;> rfl

theorem sending_state (octets : Bytes) (kept : Bytes → σ) (next : Call σ α) :
    (sending octets kept next).state = next.state := by
  unfold sending
  split <;> rfl

theorem sending_nil (kept : Bytes → σ) (next : Call σ α) : sending [] kept next = next := rfl

/-- Octets that are sent first break off among them or behind them. -/
theorem breaks_sending {octets : Bytes} {kept : Bytes → σ}
    (h : (sending octets kept next).Breaks gone s rest) :
    (∃ left, octets = gone ++ left ∧ s = kept left ∧ rest = sending left kept next) ∨
      ∃ more, gone = octets ++ more ∧ next.Breaks more s rest := by
  unfold sending at h
  split at h
  next hnil => exact .inr ⟨gone, by rw [hnil, List.nil_append], h⟩
  next hnil =>
    generalize hcall : Call.send octets kept next = call at h
    cases h with
    | @here gone left kept' next' hleft =>
      obtain ⟨rfl, rfl, rfl⟩ := Call.send.inj hcall
      exact .inl ⟨left, rfl, rfl, by rw [sending, if_neg hleft]⟩
    | @later octets' more kept' next' rest s h =>
      obtain ⟨rfl, rfl, rfl⟩ := Call.send.inj hcall
      exact .inr ⟨more, rfl, h⟩

/-- What can come of an operation: it is done, or it breaks off. -/
inductive Comes (call : Call σ α) (w : Writer) : Except IoError α × σ × Writer → Prop
  | done {v : Writer} (htook : w.Took call.sent v) : Comes call w (.ok call.result, call.state, v)
  | broken {e : IoError} {gone : Bytes} {s : σ} {rest : Call σ α} {v : Writer}
      (htook : w.Took gone v) (hbreaks : call.Breaks gone s rest) : Comes call w (.error e, s, v)

theorem run_comes (call : Call σ α) (w : Writer) : call.Comes w (call.run w) := by
  induction call generalizing w with
  | answer a s => exact .done (Writer.Took.refl w)
  | send octets kept next ih =>
    obtain ⟨taken, hsplit, htook, hfault⟩ := w.writeAll_took octets
    unfold run
    rcases hw : w.writeAll octets with ⟨_ | e, left, v⟩
    all_goals
      rw [hw] at hsplit htook hfault
      dsimp only at hsplit htook hfault ⊢
    · rw [hfault.mp rfl, List.append_nil] at hsplit
      subst hsplit
      have hnext := ih v
      generalize next.run v = answer at hnext
      cases hnext with
      | done htook' => exact .done (htook.trans htook')
      | broken htook' hbreaks => exact .broken (htook.trans htook') (.later hbreaks)
    · have hleft : left ≠ [] := by
        intro hnil
        exact absurd (hfault.mpr hnil) (Option.some_ne_none e)
      subst hsplit
      exact .broken htook (.here hleft)

theorem run_served (call : Call σ α) {count : Nat} (h : w.Serves count)
    (hle : call.sent.length ≤ count) :
    ∃ v, call.run w = (.ok call.result, call.state, v) ∧ w.Took call.sent v := by
  induction call generalizing w count with
  | answer a s => exact ⟨w, rfl, Writer.Took.refl w⟩
  | send octets kept next ih =>
    rw [sent, List.length_append] at hle
    obtain ⟨taken, hsplit, htook, hfault⟩ := w.writeAll_took octets
    have hnone : (w.writeAll octets).1 = none := h.writeAll (by omega)
    rw [hfault.mp hnone, List.append_nil] at hsplit
    subst hsplit
    obtain ⟨v, hrun, htook'⟩ := ih (htook.serves _ h) (by omega)
    rcases hw : w.writeAll octets with ⟨fault, left, u⟩
    rw [hw] at hnone htook hrun htook'
    obtain rfl : fault = none := hnone
    refine ⟨v, ?_, htook.trans htook'⟩
    unfold run
    rw [hw]
    exact hrun

theorem run_idle (call : Call σ α) (h : call.sent = []) (w : Writer) :
    (call.run w).2.2.accepted = w.accepted := by
  have hcomes := call.run_comes w
  generalize call.run w = answer at hcomes
  cases hcomes with
  | done htook =>
    rw [h] at htook
    simpa [Array.toList_inj] using htook.accepted
  | broken _ hbreaks =>
    rw [hbreaks.sent_eq] at h
    exact absurd (List.append_eq_nil_iff.mp h).2 hbreaks.sent_ne_nil

def errorOf : Except IoError α → Option IoError
  | .error e => some e
  | .ok _ => none

theorem run_wrote (call : Call σ α) (w : Writer) :
    w.Wrote (errorOf (call.run w).1) (call.run w).2.2 := by
  induction call generalizing w with
  | answer a s => exact .refl w
  | send octets kept next ih =>
    have hall := Writer.Wrote.all w octets
    unfold run
    rcases hw : w.writeAll octets with ⟨_ | e, left, v⟩
    · rw [hw] at hall
      exact hall.andThen (ih v)
    · rwa [hw] at hall

end Call

namespace Encoder

variable {E : Encoder} {s t : E.State} {contents out octets gone : Bytes} {fuel : Nat}

/-- The states that writes lead to, done or broken off, with the contents that have been taken and
the octets that have been sent. -/
inductive Reaches (E : Encoder) : E.State → (contents out : Bytes) → Prop
  | start : Reaches E E.start [] []
  | wrote {s : E.State} {contents out octets : Bytes} (h : Reaches E s contents out)
      (hnil : octets ≠ []) :
      Reaches E (E.write s octets).state (contents ++ octets.take (E.write s octets).result)
        (out ++ (E.write s octets).sent)
  | broke {s t : E.State} {contents out octets gone : Bytes} {rest : Call E.State Nat}
      (h : Reaches E s contents out) (hnil : octets ≠ [])
      (hbreaks : (E.write s octets).Breaks gone t rest) : Reaches E t contents (out ++ gone)

/-- What is asked of an encoder. -/
structure Lawful (E : Encoder) : Prop where
  /-- A write that is done takes some of the octets, and none if it breaks off. -/
  takes : ∀ {s : E.State} {contents out octets : Bytes}, E.Reaches s contents out → octets ≠ [] →
    0 < (E.write s octets).result ∧ (E.write s octets).result ≤ octets.length
  /-- A write that has broken off goes on from there when it is repeated. -/
  write_again : ∀ {s t : E.State} {contents out octets gone : Bytes} {rest : Call E.State Nat},
    E.Reaches s contents out → octets ≠ [] → (E.write s octets).Breaks gone t rest →
      E.write t octets = rest
  /-- So does ending the contents. -/
  finish_again : ∀ {s t : E.State} {contents out gone : Bytes} {rest : Call E.State Unit},
    E.Reaches s contents out → (E.finish s).Breaks gone t rest → E.finish t = rest
  /-- Contents are taken when the header has been sent. -/
  header_first : ∀ {s : E.State} {contents out : Bytes}, E.Reaches s contents out →
    contents ≠ [] → 10 ≤ out.length
  /-- Ending the contents completes the member for what has been taken. -/
  member : ∀ {s : E.State} {contents out : Bytes}, E.Reaches s contents out →
    IsMember (out ++ (E.finish s).sent) contents
  /-- Nothing is sent behind the member. -/
  silent : ∀ {s : E.State} {contents out : Bytes}, E.Reaches s contents out →
    (E.leave (E.finish s).state).sent = []

theorem Lawful.trailer_le (hE : E.Lawful) (h : E.Reaches s contents out) :
    8 ≤ (E.finish s).sent.length := by
  -- the member would be another one if one more octet came
  obtain ⟨hpos, -⟩ := hE.takes h (List.cons_ne_nil 0 [])
  have hmore := hE.member (h.wrote (List.cons_ne_nil 0 []))
  rw [List.append_assoc] at hmore
  apply (hE.member h).trailer_le hmore (List.prefix_append _ _)
  intro hsame
  have hlength := congrArg List.length hsame
  simp only [List.length_append, List.length_take, List.length_cons, List.length_nil] at hlength
  omega

/-! ### Contents without a writer -/

/-- What becomes of an encoder that is offered octets until it has taken all of them, and what it
sends. -/
def absorb (E : Encoder) : (fuel : Nat) → E.State → Bytes → E.State × Bytes
  | 0, s, _ => (s, [])
  | fuel + 1, s, octets =>
    if octets = [] then (s, [])
    else
      let call := E.write s octets
      let more := absorb E fuel call.state (octets.drop call.result)
      (more.1, call.sent ++ more.2)

def absorbAll (E : Encoder) : E.State → List Bytes → E.State × Bytes
  | s, [] => (s, [])
  | s, chunk :: chunks =>
    let first := E.absorb chunk.length s chunk
    let more := absorbAll E first.1 chunks
    (more.1, first.2 ++ more.2)

/-- All that an encoder sends from a state on for chunks of contents that end then. -/
def outputFrom (E : Encoder) (s : E.State) (chunks : List Bytes) : Bytes :=
  (E.absorbAll s chunks).2 ++ (E.finish (E.absorbAll s chunks).1).sent

def output (E : Encoder) (chunks : List Bytes) : Bytes := E.outputFrom E.start chunks

theorem length_output (E : Encoder) (chunks : List Bytes) :
    (E.output chunks).length = (E.absorbAll E.start chunks).2.length +
      (E.finish (E.absorbAll E.start chunks).1).sent.length :=
  List.length_append

theorem Lawful.reaches_absorb (hE : E.Lawful) (h : E.Reaches s contents out)
    (hfuel : octets.length ≤ fuel) :
    E.Reaches (E.absorb fuel s octets).1 (contents ++ octets)
      (out ++ (E.absorb fuel s octets).2) := by
  induction fuel generalizing s contents out octets with
  | zero =>
    obtain rfl := List.eq_nil_of_length_eq_zero (Nat.le_zero.mp hfuel)
    simpa [absorb] using h
  | succ fuel ih =>
    unfold absorb
    split
    next hnil => simpa [hnil] using h
    next hnil =>
      obtain ⟨hpos, -⟩ := hE.takes h hnil
      have hrest : (octets.drop (E.write s octets).result).length ≤ fuel := by
        rw [List.length_drop]
        omega
      have hmore := ih (h.wrote hnil) hrest
      rwa [List.append_assoc, List.append_assoc, List.take_append_drop] at hmore

theorem Lawful.reaches_absorbAll (hE : E.Lawful) (chunks : List Bytes)
    (h : E.Reaches s contents out) :
    E.Reaches (E.absorbAll s chunks).1 (contents ++ chunks.flatten)
      (out ++ (E.absorbAll s chunks).2) := by
  induction chunks generalizing s contents out with
  | nil => simpa [absorbAll] using h
  | cons chunk chunks ih =>
    have hmore := ih (hE.reaches_absorb h (le_refl chunk.length))
    rwa [List.append_assoc, List.append_assoc] at hmore

theorem Lawful.output_isMember (hE : E.Lawful) (chunks : List Bytes) :
    IsMember (E.output chunks) chunks.flatten := by
  have hmember := hE.member (hE.reaches_absorbAll chunks .start)
  rwa [List.nil_append, List.nil_append] at hmember

/-- Ending the contents sends these octets and no others, however often it is taken up. -/
structure Completes (E : Encoder) (s : E.State) (left : Bytes) : Prop where
  sent : (E.finish s).sent = left
  again : ∀ {gone : Bytes} {t : E.State} {rest : Call E.State Unit},
    (E.finish s).Breaks gone t rest → E.finish t = rest
  silent : (E.leave (E.finish s).state).sent = []

theorem Lawful.completes (hE : E.Lawful) (h : E.Reaches s contents out) :
    E.Completes s (E.finish s).sent :=
  ⟨rfl, hE.finish_again h, hE.silent h⟩

variable {left : Bytes} {w : Writer} {rest : Call E.State Unit}

theorem Completes.broken (h : E.Completes s left) (hbreaks : (E.finish s).Breaks gone t rest) :
    E.Completes t rest.sent ∧ left = gone ++ rest.sent := by
  have hagain := h.again hbreaks
  refine ⟨⟨by rw [hagain], ?_, ?_⟩, ?_⟩
  · intro more u undone hmore
    rw [hagain] at hmore
    exact h.again (hbreaks.trans hmore)
  · rw [hagain, hbreaks.state_eq]
    exact h.silent
  · rw [← h.sent, hbreaks.sent_eq]

/-- Dropping an encoder completes the member when the writer takes it. -/
theorem Completes.abandon_served (h : E.Completes s left) (hserves : w.Serves left.length) :
    (E.abandon s w).accepted.toList = w.accepted.toList ++ left := by
  obtain ⟨v, hrun, htook⟩ := (E.finish s).run_served hserves (by rw [h.sent])
  have hsilent := (E.leave (E.finish s).state).run_idle h.silent v
  unfold abandon
  rw [hrun]
  dsimp only
  rw [hsilent, htook.accepted, h.sent]

end Encoder

end GzipStage.Transfer
