import GzipStage.Log.Filter
import Mathlib.Data.List.TakeWhile

/-! A filter that is the name of a level. -/
namespace GzipStage

section Cut

variable {separator : Char} {s : List Char}

theorem splitAtChar_of_not_mem (h : separator ∉ s) : splitAtChar separator s = [s] := by
  induction s with
  | nil => rfl
  | cons c s ih =>
    obtain ⟨hc, hs⟩ := not_or.mp (mt List.mem_cons.mpr h)
    have htail := ih hs
    unfold splitAtChar at htail ⊢
    rw [List.foldr_cons, htail, if_neg (Ne.symm hc)]

theorem trimSpace_of_forall (h : ∀ c ∈ s, isSpace c = false) : trimSpace s = s := by
  have hdrop {s : List Char} (h : ∀ c ∈ s, isSpace c = false) : s.dropWhile isSpace = s :=
    List.dropWhile_eq_self_iff.mpr fun hl => Bool.eq_false_iff.mp (h _ (List.get_mem s ⟨0, hl⟩))
  rw [trimSpace, hdrop h, hdrop fun c hc => h c (List.mem_reverse.mp hc), List.reverse_reverse]

end Cut

namespace Log.Filter

variable {spec : String} {detail : Nat} {c : Char}

theorem letter_of_isLower (h : c.toLower.isLower = true) : 0x41 ≤ c.toNat ∧ c.toNat ≤ 0x7a := by
  unfold Char.toLower at h
  split at h
  case isTrue hcapital =>
    exact ⟨hcapital.1, Nat.le_trans hcapital.2 (by decide)⟩
  case isFalse =>
    have hsmall : (decide (0x61 ≤ c.val) && decide (c.val ≤ 0x7a)) = true := h
    rw [Bool.and_eq_true, decide_eq_true_eq, decide_eq_true_eq] at hsmall
    exact ⟨Nat.le_trans (by decide) hsmall.1, hsmall.2⟩

theorem letter_of_detail? {s : List Char} (h : detail? s = some detail) :
    ∀ c ∈ s, 0x41 ≤ c.toNat ∧ c.toNat ≤ 0x7a := by
  intro c hc
  obtain ⟨before, after, htable, -⟩ := List.lookup_eq_some_iff.mp h
  have hlower : ∀ entry ∈ [("off", 0), ("error", 1), ("warn", 2), ("info", 3), ("debug", 4),
      ("trace", 5)], entry.1.toList.all Char.isLower = true := by decide
  have hentry := hlower (String.ofList (s.map Char.toLower), detail)
  refine letter_of_isLower (List.all_eq_true.mp (hentry ?_) _ ?_)
  · rw [htable]
    exact List.mem_append_right _ (List.mem_cons_self ..)
  · rw [String.toList_ofList]
    exact List.mem_map_of_mem hc

theorem parse_level (h : detail? spec.toList = some detail) :
    parse spec = (⟨[⟨none, detail⟩], none⟩, []) := by
  have hletter := letter_of_detail? h
  have hseparator {separator : Char} (hlow : separator.toNat < 0x41) : separator ∉ spec.toList :=
    fun hmem => absurd (hletter _ hmem).1 (by omega)
  have hspace : ∀ c ∈ spec.toList, isSpace c = false := by
    intro c hc
    obtain ⟨hleast, hgreatest⟩ := hletter c hc
    simp [isSpace]
    omega
  have hne : spec.toList ≠ [] := by
    intro hempty
    rw [hempty] at h
    cases h
  have hdirective : readDirective spec.toList = .ok ⟨none, detail⟩ := by
    rw [readDirective, splitAtChar_of_not_mem (hseparator (by decide))]
    dsimp only
    rw [h]
  have hparts : [spec.toList].filter (· ≠ []) = [spec.toList] :=
    List.filter_eq_self.mpr (List.forall_mem_singleton.mpr (decide_eq_true hne))
  have hdirectives : readDirectives spec.toList = ([⟨none, detail⟩], []) := by
    rw [readDirectives, splitAtChar_of_not_mem (hseparator (by decide)), List.map_singleton,
      trimSpace_of_forall hspace, hparts]
    dsimp only [List.foldl_cons, List.foldl_nil]
    rw [hdirective]
    rfl
  rw [parse, splitAtChar_of_not_mem (hseparator (by decide))]
  dsimp only
  rw [hdirectives]

end Log.Filter

end GzipStage
