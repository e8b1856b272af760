import GzipStage.Proofs.Json.Success
import GzipStage.Proofs.Json.Sound.NumberLiteral
import GzipStage.Proofs.Json.Sound.StringLiteral

/-! What is passed over is one value. -/
namespace GzipStage.Json

variable {α β : Type} {P : α → Bytes → Prop} {Q : β → Bytes → Prop} {R : β → Prop}
  {xs : List α} {s s₁ rest text : Bytes} {b : UInt8}

theorem skipBlanks_eq_cons (h : skipBlanks s = b :: rest) :
    ∃ before, Blank before ∧ s = before ++ b :: rest := by
  refine ⟨s.takeWhile isBlank, ?_, ?_⟩
  · intro d hd
    exact isBlank_iff.mp (List.mem_takeWhile_imp hd)
  · rw [← h]
    exact List.takeWhile_append_dropWhile.symm

theorem eq_append_of_readWord {word : Bytes} (h : readWord word s = .ok rest) :
    s = word ++ rest := by
  induction word generalizing s with
  | nil => exact Except.ok.inj h
  | cons w word ih =>
    cases s with
    | nil => cases h
    | cons b s =>
      rw [readWord] at h
      split_ifs at h with hb
      rw [← hb, ih h, List.cons_append]

theorem RowTail.exchange (h : RowTail P xs s)
    (hPQ : ∀ x ∈ xs, ∀ text, P x text → ∃ y, Q y text ∧ R y) :
    ∃ ys, RowTail Q ys s ∧ ∀ y ∈ ys, R y := by
  induction h with
  | done hblank => exact ⟨[], .done hblank, List.forall_mem_nil _⟩
  | item hbefore hafter htext htail ih =>
    obtain ⟨hx, hxs⟩ := List.forall_mem_cons.mp hPQ
    obtain ⟨y, hy, hR⟩ := hx _ htext
    obtain ⟨ys, hys, hRs⟩ := ih hxs
    exact ⟨y :: ys, .item hbefore hafter hy hys, List.forall_mem_cons.mpr ⟨hR, hRs⟩⟩

/-- A row of things is also a row of other things that are written in the same way. -/
theorem Row.exchange (h : Row P xs s) (hPQ : ∀ x ∈ xs, ∀ text, P x text → ∃ y, Q y text ∧ R y) :
    ∃ ys, Row Q ys s ∧ ∀ y ∈ ys, R y := by
  cases h with
  | none hblank => exact ⟨[], .none hblank, List.forall_mem_nil _⟩
  | first hbefore htext htail =>
    obtain ⟨hx, hxs⟩ := List.forall_mem_cons.mp hPQ
    obtain ⟨y, hy, hR⟩ := hx _ htext
    obtain ⟨ys, hys, hRs⟩ := htail.exchange hxs
    exact ⟨y :: ys, .first hbefore hy hys, List.forall_mem_cons.mpr ⟨hR, hRs⟩⟩

namespace Skip

variable {place : Place} {bracket : Bracket} {stack stack' : List Bracket}

/-- An item of a bracket whose value is `text`: a member in an object, else the value itself. -/
def Entry : Bracket → (text s : Bytes) → Prop
  | .list, text, s => text = s
  | .object, text, s => ∃ name, Literal name ∧ Member name text s

inductive Closes : List Bracket → (s rest : Bytes) → Prop
  | outermost (rest : Bytes) : Closes [] rest rest
  | inside {bracket : Bracket} {stack : List Bracket} {texts : List Bytes} {body s rest : Bytes}
      (hbody : RowTail (Entry bracket) texts body) (htexts : ∀ text ∈ texts, Text text)
      (hmore : Closes stack s rest) :
      Closes (bracket :: stack) (body ++ bracket.close :: s) rest

/-- From a place the walk goes on to the end of the outermost value. -/
def Leads : Place → List Bracket → (s rest : Bytes) → Prop
  | .value, stack, s, rest => ∃ before text after, Blank before ∧ Text text ∧
      s = before ++ (text ++ after) ∧ Closes stack after rest
  | .ended, stack, s, rest => Closes stack s rest

theorem text_of_row {texts : List Bytes} (h : Row (Entry bracket) texts s)
    (htexts : ∀ text ∈ texts, Text text) : Text (bracket.opening :: (s ++ [bracket.close])) := by
  cases bracket with
  | list => exact .list h htexts
  | object =>
    obtain ⟨members, hmembers, hboth⟩ := h.exchange
      (Q := fun m : Bytes × Bytes => Member m.1 m.2) (R := fun m => Literal m.1 ∧ Text m.2)
      fun text htext s ⟨name, hname, hmember⟩ =>
        ⟨(name, text), hmember, hname, htexts text htext⟩
    exact .object hmembers (fun m hm => (hboth m hm).1) fun m hm => (hboth m hm).2

theorem item_sound {before after : Bytes} (h : item bracket s = .ok s₁)
    (hbefore : Blank before) (hs₁ : s₁ = before ++ (text ++ after)) :
    ∃ blank entry, Blank blank ∧ Entry bracket text entry ∧ s = blank ++ (entry ++ after) := by
  cases bracket with
  | list =>
    cases h
    exact ⟨before, text, hbefore, rfl, hs₁⟩
  | object =>
    rw [item] at h
    cases hskip : skipBlanks s with
    | nil => simp [hskip] at h
    | cons b s₂ =>
      simp only [hskip] at h
      split_ifs at h with hquote
      obtain ⟨s₃, hname, h⟩ := bind_ok_iff.mp h
      obtain ⟨name, hliteral, hsplit⟩ := literal_of_string hname
      obtain ⟨blank, hblank, rfl⟩ := skipBlanks_eq_cons hskip
      cases hskip' : skipBlanks s₃ with
      | nil => simp [hskip'] at h
      | cons b' s₄ =>
        simp only [hskip'] at h
        split_ifs at h with hcolon
        cases h
        obtain ⟨blank', hblank', rfl⟩ := skipBlanks_eq_cons hskip'
        refine ⟨blank, _, hblank, ⟨name, hliteral, blank', before, hblank', hbefore, rfl⟩, ?_⟩
        rw [hquote, hsplit, hs₁, hcolon]
        simp only [List.append_assoc, List.cons_append]

theorem closes_of_next (h : next bracket stack s = .ok (place, stack', s₁))
    (hleads : Leads place stack' s₁ rest) : Closes (bracket :: stack) s rest := by
  rw [next] at h
  cases hskip : skipBlanks s with
  | nil => simp [hskip] at h
  | cons b s₂ =>
    obtain ⟨blank, hblank, rfl⟩ := skipBlanks_eq_cons hskip
    simp only [hskip] at h
    split_ifs at h with hcomma hclose
    · obtain ⟨s₃, hitem, h⟩ := bind_ok_iff.mp h
      cases h
      obtain ⟨before, text, after, hbefore, htext, hs₁, hcloses⟩ := hleads
      obtain ⟨blank', entry, hblank', hentry, rfl⟩ := item_sound hitem hbefore hs₁
      cases hcloses with
      | inside hbody htexts hmore =>
        have hall := Closes.inside (.item hblank hblank' hentry hbody)
          (List.forall_mem_cons.mpr ⟨htext, htexts⟩) hmore
        rw [hcomma]
        simpa only [List.append_assoc, List.cons_append] using hall
    · cases h
      rw [hclose]
      exact .inside (.done hblank) (List.forall_mem_nil _) hleads

theorem leads_of_enter (bracket : Bracket) {before : Bytes} (hbefore : Blank before)
    (h : enter bracket stack s = .ok (place, stack', s₁)) (hleads : Leads place stack' s₁ rest) :
    Leads .value stack (before ++ bracket.opening :: s) rest := by
  rw [enter] at h
  cases hskip : skipBlanks s with
  | nil => simp [hskip] at h
  | cons b s₂ =>
    obtain ⟨blank, hblank, rfl⟩ := skipBlanks_eq_cons hskip
    simp only [hskip] at h
    split_ifs at h with hclose
    · cases h
      have hrow : Row (Entry bracket) [] blank := .none hblank
      have htext := text_of_row hrow (List.forall_mem_nil _)
      refine ⟨before, _, _, hbefore, htext, ?_, hleads⟩
      rw [hclose]
      simp only [List.append_assoc, List.cons_append, List.nil_append]
    · obtain ⟨s₃, hitem, h⟩ := bind_ok_iff.mp h
      cases h
      obtain ⟨before', text, after, hbefore', htext, hs₁, hcloses⟩ := hleads
      obtain ⟨blank', entry, hblank', hentry, hs₂⟩ := item_sound hitem hbefore' hs₁
      cases hcloses with
      | @inside _ _ texts body s₄ _ hbody htexts hmore =>
        have hrow : Row (Entry bracket) (text :: texts) (blank ++ (blank' ++ (entry ++ body))) := by
          rw [← List.append_assoc]
          exact .first (List.forall_mem_append.mpr ⟨hblank, hblank'⟩) hentry hbody
        refine ⟨before, _, s₄, hbefore,
          text_of_row hrow (List.forall_mem_cons.mpr ⟨htext, htexts⟩), ?_, hmore⟩
        rw [hs₂]
        simp only [List.append_assoc, List.cons_append, List.nil_append]

theorem text_of_scalar (h : scalar b s = .ok rest) : ∃ text, Text text ∧ b :: s = text ++ rest := by
  rw [scalar] at h
  split_ifs at h with hnull htrue hfalse hminus hdigit hquote
  · exact ⟨_, .null, by rw [encode_null, hnull, eq_append_of_readWord h]; rfl⟩
  · refine ⟨_, .bool true, ?_⟩
    rw [if_pos rfl, encode_true, htrue, eq_append_of_readWord h]
    rfl
  · refine ⟨_, .bool false, ?_⟩
    rw [if_neg (by decide), encode_false, hfalse, eq_append_of_readWord h]
    rfl
  · obtain ⟨text, _, htext, rfl⟩ := number_sound h
    exact ⟨_, .number htext, by rw [hminus]; rfl⟩
  · obtain ⟨text, htext, _, hs⟩ := number_sound h
    exact ⟨_, .number htext, hs⟩
  · obtain ⟨literal, hliteral, hs⟩ := literal_of_string h
    exact ⟨_, .string hliteral, by rw [hquote, hs]⟩

theorem leads_of_begin (h : begin stack s = .ok (place, stack', s₁))
    (hleads : Leads place stack' s₁ rest) : Leads .value stack s rest := by
  rw [begin] at h
  cases hskip : skipBlanks s with
  | nil => simp [hskip] at h
  | cons b s₂ =>
    obtain ⟨blank, hblank, rfl⟩ := skipBlanks_eq_cons hskip
    simp only [hskip] at h
    split_ifs at h with hlist hobject
    · rw [hlist]
      exact leads_of_enter .list hblank h hleads
    · rw [hobject]
      exact leads_of_enter .object hblank h hleads
    · obtain ⟨s₃, hscalar, h⟩ := bind_ok_iff.mp h
      cases h
      obtain ⟨text, htext, hs⟩ := text_of_scalar hscalar
      exact ⟨blank, text, s₁, hblank, htext, by rw [hs], hleads⟩

theorem leads_of_walk {fuel : Nat} (h : walk fuel place stack s = .ok rest) :
    Leads place stack s rest := by
  induction fuel generalizing place stack s with
  | zero => cases h
  | succ fuel ih =>
    cases place with
    | value =>
      obtain ⟨⟨place, stack', s₁⟩, hbegin, h⟩ := bind_ok_iff.mp h
      exact leads_of_begin hbegin (ih h)
    | ended =>
      cases stack with
      | nil =>
        cases h
        exact .outermost _
      | cons bracket stack =>
        obtain ⟨⟨place, stack', s₁⟩, hnext, h⟩ := bind_ok_iff.mp h
        exact closes_of_next hnext (ih h)

theorem value_sound (h : value s = .ok rest) :
    ∃ before text, Blank before ∧ Text text ∧ s = before ++ (text ++ rest) := by
  obtain ⟨before, text, after, hbefore, htext, rfl, hcloses⟩ := leads_of_walk h
  cases hcloses
  exact ⟨before, text, hbefore, htext, rfl⟩

end Skip

end GzipStage.Json
