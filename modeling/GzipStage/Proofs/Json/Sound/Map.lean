import GzipStage.Proofs.Json.Sound.Read
import Mathlib.Data.List.Dedup

/-! What a map holds of the members it is read from. -/
namespace GzipStage.Json

namespace Members

variable {name other : String} {value : Value} {ms : Members}

theorem get?_cons (m : String × Value) :
    get? (m :: ms) other = if m.1 = other then some m.2 else ms.get? other := by
  by_cases h : m.1 = other <;> simp [get?, h]

theorem get?_insert :
    (insert name value ms).get? other = if other = name then some value else ms.get? other := by
  induction ms with
  | nil =>
    rw [insert, get?_cons]
    simp only [eq_comm]
  | cons m rest ih =>
    obtain ⟨n, v⟩ := m
    rw [insert]
    split
    · rw [get?_cons]
      simp only [eq_comm]
    · split
      · next hsame =>
        rw [get?_cons, get?_cons, hsame]
        by_cases hother : other = n
        · rw [if_pos hother, if_pos hother.symm]
        · rw [if_neg hother, if_neg (Ne.symm hother), if_neg (Ne.symm hother)]
      · next hdiffer =>
        rw [get?_cons, get?_cons, ih]
        by_cases hother : other = name
        · rw [if_pos hother, if_pos hother, if_neg fun h => hdiffer (h.trans hother).symm]
        · rw [if_neg hother, if_neg hother]

theorem mem_names_insert :
    other ∈ (insert name value ms).names ↔ other = name ∨ other ∈ ms.names := by
  induction ms with
  | nil => simp [insert, names]
  | cons m rest ih =>
    obtain ⟨n, v⟩ := m
    rw [insert]
    split_ifs with hless hsame
    · simp [names]
    · simp [names, hsame]
    · simp only [names, List.map_cons, List.mem_cons] at ih ⊢
      rw [ih, or_left_comm]

theorem Ordered.nodup (h : ms.Ordered) : ms.names.Nodup :=
  List.pairwise_map.mpr (h.imp fun hlt => ne_of_lt hlt)

end Members

variable {read : Bytes → Except Fault (Value × Bytes)} {start ms : Members} {s : Bytes}
  {entries : List (String × Bytes)} {levels : Nat}

theorem reads_map_iff (h : ObjectText entries s) :
    Reads (map (levels + 1)) s ms ↔
      Folds (readInto (value levels)) Prod.fst Prod.snd [] entries ms := by
  constructor
  · intro hreads
    have hread := ((map_sound (levels + 1)).reads_iff h.isText).mp hreads
    obtain ⟨below, s₁, hbelow, hskip, hmap⟩ := map_ok_iff.mp hread
    cases hbelow
    obtain ⟨entries', body, hbody, htexts, rfl, hfolds⟩ := memberMap_sound (value_sound levels) hmap
    have hs : s = inBraces body := h.isText.skipBlanks.symm.trans hskip
    obtain rfl : entries = entries' := h.unique ⟨body, hbody, htexts, hs⟩
    exact hfolds
  · intro hfolds
    obtain ⟨body, hbody, _, rfl⟩ := h
    intro before rest hbefore _
    exact map_ok_iff.mpr ⟨levels, _, rfl, skipBlanks_inBraces hbefore,
      memberMap_of_folds hbody hfolds rest⟩

theorem objectText_of_reads_map (hs : Text s) (h : Reads (map levels) s ms) :
    ∃ entries, ObjectText entries s := by
  have hread := ((map_sound levels).reads_iff hs).mp h
  obtain ⟨below, s₁, rfl, hskip, hmap⟩ := map_ok_iff.mp hread
  obtain ⟨entries, body, hbody, htexts, rfl, _⟩ := memberMap_sound (value_sound below) hmap
  exact ⟨entries, body, hbody, htexts, hs.skipBlanks.symm.trans hskip⟩

theorem Folds.append {α σ : Type} {read : String → σ → Bytes → Except Fault (σ × Bytes)}
    {name : α → String} {text : α → Bytes} {front back : List α} {x z : σ}
    (h : Folds read name text x (front ++ back) z) :
    ∃ y, Folds read name text x front y ∧ Folds read name text y back z := by
  induction front generalizing x with
  | nil => exact ⟨x, .nil x, h⟩
  | cons e front ih =>
    cases h with
    | cons hread hmore =>
      obtain ⟨y, hfront, hback⟩ := ih hmore
      exact ⟨y, .cons hread hfront, hback⟩

theorem readInto_inserts (hsound : Sound read) {name : String} {text : Bytes} (htext : Text text)
    (h : ReadsMember (readInto read name start) text ms) :
    ∃ v, Reads read text v ∧ ms = Members.insert name v start := by
  obtain ⟨v, hv, rfl⟩ :=
    hsound.readsMember (f := fun v => Members.insert name v start) htext h
  exact ⟨v, hv, rfl⟩

theorem ordered_of_folds (hsound : Sound read) (htexts : ∀ e ∈ entries, Text e.2)
    (hstart : start.Ordered) (h : Folds (readInto read) Prod.fst Prod.snd start entries ms) :
    ms.Ordered := by
  induction h with
  | nil => exact hstart
  | cons hread _ ih =>
    obtain ⟨htext, hmore⟩ := List.forall_mem_cons.mp htexts
    obtain ⟨v, _, rfl⟩ := readInto_inserts hsound htext hread
    exact ih hmore (Members.insert_ordered v hstart)

theorem mem_names_of_folds (hsound : Sound read) (htexts : ∀ e ∈ entries, Text e.2) (name : String)
    (h : Folds (readInto read) Prod.fst Prod.snd start entries ms) :
    name ∈ ms.names ↔ name ∈ start.names ∨ name ∈ entries.map Prod.fst := by
  induction h with
  | nil => simp
  | cons hread _ ih =>
    obtain ⟨htext, hmore⟩ := List.forall_mem_cons.mp htexts
    obtain ⟨v, _, rfl⟩ := readInto_inserts hsound htext hread
    rw [ih hmore, Members.mem_names_insert, List.map_cons, List.mem_cons, or_comm (a := name = _),
      or_assoc]

theorem get?_of_folds (hsound : Sound read) (htexts : ∀ e ∈ entries, Text e.2) {name : String}
    (hname : name ∉ entries.map Prod.fst)
    (h : Folds (readInto read) Prod.fst Prod.snd start entries ms) :
    ms.get? name = start.get? name := by
  induction h with
  | nil => rfl
  | cons hread _ ih =>
    obtain ⟨htext, hmore⟩ := List.forall_mem_cons.mp htexts
    obtain ⟨hne, hnot⟩ := not_or.mp (List.mem_cons.not.mp hname)
    obtain ⟨v, _, rfl⟩ := readInto_inserts hsound htext hread
    rw [ih hmore hnot, Members.get?_insert, if_neg hne]

theorem get?_last_of_folds (hsound : Sound read) {front back : List (String × Bytes)}
    {name : String} {text : Bytes} (htexts : ∀ e ∈ front ++ (name, text) :: back, Text e.2)
    (hlast : name ∉ back.map Prod.fst)
    (h : Folds (readInto read) Prod.fst Prod.snd start (front ++ (name, text) :: back) ms) :
    ∃ v, ms.get? name = some v ∧ Reads read text v := by
  obtain ⟨_, hrest⟩ := List.forall_mem_append.mp htexts
  obtain ⟨htext, hback⟩ := List.forall_mem_cons.mp hrest
  obtain ⟨mid, _, h⟩ := h.append
  cases h with
  | cons hread hmore =>
    obtain ⟨v, hv, rfl⟩ := readInto_inserts hsound htext hread
    refine ⟨v, ?_, hv⟩
    rw [get?_of_folds hsound hback hlast hmore, Members.get?_insert, if_pos rfl]

/-- A map holds the names of these members, each one once, in order and with the value of the last
member of that name. -/
structure Latest (entries : List (String × Bytes)) (ms : Members) : Prop where
  ordered : ms.Ordered
  names : ∀ name, name ∈ ms.names ↔ name ∈ entries.map Prod.fst
  last : ∀ front name text back, entries = front ++ (name, text) :: back →
    name ∉ back.map Prod.fst → ∃ v, ms.get? name = some v ∧ document value text = .ok v

theorem Latest.length (h : Latest entries ms) :
    ms.length = (entries.map Prod.fst).dedup.length := by
  have hsame : ms.names.Perm (entries.map Prod.fst).dedup := by
    rw [List.perm_ext_iff_of_nodup h.ordered.nodup (List.nodup_dedup _)]
    intro name
    rw [h.names, List.mem_dedup]
  rw [← hsame.length_eq, Members.names, List.length_map]

theorem latest_of_reads_map (h : ObjectText entries s) (hmax : levels ≤ maxLevels)
    (hreads : Reads (map (levels + 1)) s ms) : Latest entries ms := by
  have hfolds := (reads_map_iff h).mp hreads
  obtain ⟨_, _, htexts, _⟩ := h
  have hsound := value_sound levels
  refine ⟨ordered_of_folds hsound htexts .nil hfolds, ?_, ?_⟩
  · intro name
    rw [mem_names_of_folds hsound htexts name hfolds]
    simp [Members.names]
  · rintro front name text back rfl hlast
    obtain ⟨v, hget, hv⟩ := get?_last_of_folds hsound htexts hlast hfolds
    exact ⟨v, hget, hv.document hmax⟩

end GzipStage.Json
