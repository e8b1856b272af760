import GzipStage.Deflate.Chains
import Mathlib.Tactic

/-! The tokens that are found stand for the contents they were found in. -/
namespace GzipStage.Deflate

/-- A token within the bounds that lengths and distances have. -/
def Token.InBounds : Token → Prop
  | .literal _ => True
  | .copy length distance =>
    minLength ≤ length ∧ length ≤ maxLength ∧ 0 < distance ∧ distance ≤ maxDistance

theorem appendTokens_append (out : Array UInt8) (as bs : List Token) :
    appendTokens out (as ++ bs) = (appendTokens out as).bind (appendTokens · bs) :=
  List.foldlM_append

variable {data : Array UInt8}

theorem push_getD_extract {i : Nat} (h : i < data.size) :
    (data.extract 0 i).push (data.getD i 0) = data.extract 0 (i + 1) := by
  have hget : data.getD i 0 = data[i] := by simp [h]
  rw [hget, Array.push_extract_getElem h, Nat.zero_min]

theorem appendTo_literal {i : Nat} (h : i < data.size) :
    (Token.literal (data.getD i 0)).appendTo (data.extract 0 i) =
      some (data.extract 0 (i + 1)) := by
  rw [Token.appendTo, push_getD_extract h]

/-- A copy whose octets have been compared extends what stands before a position. -/
theorem copyOnto_extract {distance length i : Nat} (hpos : 0 < distance) (hle : distance ≤ i)
    (hlen : i + length ≤ data.size)
    (hsame : ∀ k < length, data.getD (i - distance + k) 0 = data.getD (i + k) 0) :
    copyOnto distance length (data.extract 0 i) = data.extract 0 (i + length) := by
  induction length generalizing i with
  | zero => rfl
  | succ length ih =>
    have hsize : (data.extract 0 i).size = i := by simp; omega
    have hsource : (data.extract 0 i).getD (i - distance) 0 = data.getD i 0 := by
      have hfirst := hsame 0 (Nat.zero_lt_succ length)
      simp only [Nat.add_zero] at hfirst
      rw [← hfirst]
      simp only [Array.getD_eq_getD_getElem?, Array.getElem?_extract]
      rw [if_pos (by omega), Nat.zero_add]
    rw [copyOnto, hsize, hsource, push_getD_extract (by omega),
      ih (by omega) (by omega) ?_, Nat.add_right_comm, Nat.add_assoc]
    intro k hk
    have hnext := hsame (k + 1) (by omega)
    rwa [show i - distance + (k + 1) = i + 1 - distance + k by omega,
      show i + (k + 1) = i + 1 + k by omega] at hnext

/-- A copy for the position `i`: it begins before `i`, and repeats what stands at `i`. -/
structure Match.Repeats (data : Array UInt8) (i : Nat) (m : Match) : Prop where
  distance_pos : 0 < m.distance
  distance_le : m.distance ≤ i
  distance_max : m.distance ≤ maxDistance
  length_max : m.length ≤ maxLength
  length_le : i + m.length ≤ data.size
  same : ∀ k < m.length, data.getD (i - m.distance + k) 0 = data.getD (i + k) 0

theorem Match.Repeats.appendTo {i : Nat} {m : Match} (h : m.Repeats data i) :
    (Token.copy m.length m.distance).appendTo (data.extract 0 i) =
      some (data.extract 0 (i + m.length)) := by
  have hsize : (data.extract 0 i).size = i := by
    have := h.length_le
    simp
    omega
  rw [Token.appendTo, hsize, copyOnto_extract h.distance_pos h.distance_le h.length_le h.same,
    if_pos (by simp [h.distance_pos, h.distance_le])]

theorem commonLength_le (data : Array UInt8) (limit j i : Nat) :
    commonLength data limit j i ≤ limit := by
  induction limit generalizing j i with
  | zero => simp [commonLength]
  | succ limit ih =>
    rw [commonLength]
    split
    · exact Nat.succ_le_succ (ih (j + 1) (i + 1))
    · exact Nat.zero_le _

theorem commonLength_same (data : Array UInt8) (limit j i : Nat) :
    ∀ k < commonLength data limit j i, data.getD (j + k) 0 = data.getD (i + k) 0 := by
  induction limit generalizing j i with
  | zero => simp [commonLength]
  | succ limit ih =>
    intro k hk
    rw [commonLength] at hk
    split at hk
    next hhead =>
      cases k with
      | zero => exact hhead
      | succ k =>
        have hnext := ih (j + 1) (i + 1) k (by omega)
        rwa [show j + 1 + k = j + (k + 1) by omega, show i + 1 + k = i + (k + 1) by omega] at hnext
    next => omega

theorem follow_repeats (earlier : Array Nat) {i limit : Nat} (hmax : limit ≤ maxLength)
    (hlimit : i + limit ≤ data.size) (probes j : Nat) {best : Match}
    (hbest : best.length = 0 ∨ best.Repeats data i) :
    (follow data earlier i limit probes j best).length = 0 ∨
      (follow data earlier i limit probes j best).Repeats data i := by
  induction probes generalizing j best with
  | zero => exact hbest
  | succ probes ih =>
    rw [follow]
    split
    next hj =>
      simp only [Bool.and_eq_true, decide_eq_true_eq] at hj
      obtain ⟨⟨_, hbefore⟩, hnear⟩ := hj
      have hlen := commonLength_le data limit j i
      have hcandidate : Match.Repeats data i ⟨commonLength data limit j i, i - j⟩ :=
        { distance_pos := by simp only; omega
          distance_le := by simp only; omega
          distance_max := hnear
          length_max := hlen.trans hmax
          length_le := by simp only; omega
          same := by
            intro k hk
            rw [show i - (i - j) = j by omega]
            exact commonLength_same data limit j i k hk }
      dsimp only
      generalize hkept :
        (if best.length < commonLength data limit j i then
          Match.mk (commonLength data limit j i) (i - j) else best) = m
      have hm : m.length = 0 ∨ m.Repeats data i := by
        rw [← hkept]
        split
        · exact .inr hcandidate
        · exact hbest
      split
      · exact hm
      · exact ih _ hm
    next => exact hbest

/-- What a search gives is either nothing or a copy that is long enough. -/
theorem find_repeats (c : Chains) (data : Array UInt8) (i : Nat) :
    (c.find data i).length = 0 ∨
      minLength ≤ (c.find data i).length ∧ (c.find data i).Repeats data i := by
  unfold Chains.find
  split
  next hroom =>
    have hnone : Match.none.length = 0 ∨ Match.none.Repeats data i := .inl rfl
    have hfound := follow_repeats c.earlier (Nat.min_le_left maxLength (data.size - i)) (by omega)
      maxProbes (c.latest.getD (hashAt data i) 0) hnone
    dsimp only
    split
    next hlong =>
      refine .inr ⟨hlong, hfound.resolve_left ?_⟩
      have hmin : 0 < minLength := by decide
      omega
    next => exact .inl rfl
  next => exact .inl rfl

/-- The tokens stand for the octets that are left.  The induction is on the fuel, with what has
been collected standing for everything before `i`. -/
theorem tokensOnto_spells (base : Array UInt8) (fuel i : Nat) (here : Match) (c : Chains)
    (acc : List Token) (hi : i ≤ data.size) (hfuel : data.size - i ≤ fuel)
    (hhere : here.length = 0 ∨ minLength ≤ here.length ∧ here.Repeats data i)
    (hacc : appendTokens base acc.reverse = some (data.extract 0 i))
    (hbounds : ∀ token ∈ acc, token.InBounds) :
    appendTokens base (tokensOnto data fuel i here c acc).1.reverse = some data ∧
      ∀ token ∈ (tokensOnto data fuel i here c acc).1, token.InBounds := by
  induction fuel generalizing i here c acc with
  | zero =>
    rw [Array.extract_eq_self_of_le (by omega)] at hacc
    exact ⟨hacc, hbounds⟩
  | succ fuel ih =>
    rw [tokensOnto]
    split
    next hsize =>
      rw [Array.extract_eq_self_of_le hsize] at hacc
      exact ⟨hacc, hbounds⟩
    next hsize =>
      dsimp only
      split
      · apply ih
        · omega
        · omega
        · exact find_repeats _ data (i + 1)
        · rw [List.reverse_cons, appendTokens_append, hacc]
          simp only [appendTokens, Option.bind_some, List.foldlM_cons, List.foldlM_nil,
            appendTo_literal (show i < data.size by omega)]
          rfl
        · intro token hmem
          rcases List.mem_cons.mp hmem with rfl | hmem
          · trivial
          · exact hbounds token hmem
      next hcopy =>
        simp only [Bool.or_eq_true, decide_eq_true_eq, not_or] at hcopy
        obtain ⟨hmin, hrepeats⟩ := hhere.resolve_left hcopy.1
        have hlen := hrepeats.length_le
        apply ih
        · omega
        · omega
        · exact find_repeats _ data (i + here.length)
        · rw [List.reverse_cons, appendTokens_append, hacc]
          simp [appendTokens, hrepeats.appendTo]
        · intro token hmem
          rcases List.mem_cons.mp hmem with rfl | hmem
          · exact ⟨hmin, hrepeats.length_max, hrepeats.distance_pos, hrepeats.distance_max⟩
          · exact hbounds token hmem

/-- The tokens for an open block extend what stands before it to the whole contents. -/
theorem tokensFrom_spells {start : Nat} (c : Chains) (h : start ≤ data.size) :
    appendTokens (data.extract 0 start) (tokensFrom data start c).1 = some data ∧
      ∀ token ∈ (tokensFrom data start c).1, token.InBounds := by
  have hspells := tokensOnto_spells (data.extract 0 start) (data.size - start) start
    (c.find data start) c [] h le_rfl (find_repeats c data start) rfl (by simp)
  simpa [tokensFrom] using hspells

end GzipStage.Deflate
