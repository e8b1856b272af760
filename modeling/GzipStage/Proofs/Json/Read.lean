import GzipStage.Proofs.Json.Sequence

/-! Values are read back from every way to write them. -/
namespace GzipStage.Json

variable {s rest body : Bytes} {levels : Nat}

theorem StringText.reads {t : String} (h : StringText t s) : Reads (string levels) s t := by
  intro before rest hbefore _
  obtain ⟨tail, rfl, hread⟩ := h.read
  rw [string, List.cons_append, skipBlanks_to hbefore rfl]
  exact hread rest

/-- The colon and the value of a member are read, and `f` tells what becomes of the value. -/
theorem Reads.member {α σ : Type} {read : Bytes → Except Fault (α × Bytes)} {x : α}
    (h : Reads read s x) (f : α → σ) :
    ReadsMember (fun s => do
      let s ← readColon s
      let (x, s) ← read s
      .ok (f x, s)) s (f x) := by
  intro before after rest hbefore hafter hrest
  simp only [readColon_next hbefore, h after rest hafter hrest, ok_bind]

/-- Reading members one after another inserts each into the map that has been read so far. -/
theorem insert_folds {read : Bytes → Except Fault (Value × Bytes)} (start : Members)
    (entries : List ((String × Value) × Bytes))
    (hvalues : ∀ e ∈ entries, Reads read e.2 e.1.2) :
    Folds (readInto read) (fun e => e.1.1) Prod.snd start entries
      ((entries.map Prod.fst).foldl (fun ms m => Members.insert m.1 m.2 ms) start) := by
  induction entries generalizing start with
  | nil => exact .nil start
  | cons e entries ih =>
    apply Folds.cons
    · exact (hvalues e List.mem_cons_self).member fun v => Members.insert e.1.1 v start
    · exact ih _ fun e he => hvalues e (List.mem_cons_of_mem _ he)

theorem memberMap_inserts (rest : Bytes) {read : Bytes → Except Fault (Value × Bytes)}
    {entries : List ((String × Value) × Bytes)}
    (h : Row (fun e => NamedMember e.1.1 e.2) entries body)
    (hvalues : ∀ e ∈ entries, Reads read e.2 e.1.2) :
    memberMap read (body ++ Octet.closeBrace :: rest) =
      .ok ((entries.map Prod.fst).foldl (fun ms m => Members.insert m.1 m.2 ms) [], rest) := by
  obtain ⟨blank, hblank, hmembers⟩ :=
    members_row rest h (insert_folds [] entries hvalues) (h.length_lt Octet.closeBrace rest)
  exact memberMap_ok_iff.mpr ⟨_, hmembers, closeObject_end hblank⟩

theorem memberMap_row (rest : Bytes) {read : Bytes → Except Fault (Value × Bytes)}
    {entries : List ((String × Value) × Bytes)} {ms : Members}
    (h : Row (fun e => NamedMember e.1.1 e.2) entries body)
    (horder : (entries.map Prod.fst).Perm ms) (hms : ms.Ordered)
    (hvalues : ∀ e ∈ entries, Reads read e.2 e.1.2) :
    memberMap read (body ++ Octet.closeBrace :: rest) = .ok (ms, rest) := by
  rw [memberMap_inserts rest h hvalues, Members.foldl_insert_of_perm horder hms]

theorem value_scalar {b : UInt8} {before : Bytes} (hbefore : Blank before) (hb : StartsScalar b) :
    value levels (before ++ b :: s) = scalar b s := by
  obtain ⟨hblank, hlist, hobject, _⟩ := hb
  rw [value, skipBlanks_to hbefore hblank]
  simp only [if_neg hlist, if_neg hobject]

theorem integer_natAbs {n : Int} (hleast : -0x8000000000000000 ≤ n)
    (hgreatest : n ≤ 0xffffffffffffffff) :
    n.natAbs < NumberLiteral.wordLimit ∧
      NumberLiteral.integer (decide (n < 0)) n.natAbs = .integer n := by
  simp only [NumberLiteral.wordLimit, NumberLiteral.integer, NumberLiteral.leastSize]
  refine ⟨by omega, ?_⟩
  by_cases hn : n < 0
  · have hsize : 0 < n.natAbs ∧ n.natAbs ≤ 9223372036854775808 := by omega
    have hback : -(n.natAbs : Int) = n := by omega
    simp only [hn, decide_true, if_true, hsize, Bool.and_self, hback]
  · have hback : (n.natAbs : Int) = n := by omega
    simp only [hn, decide_false, Bool.false_eq_true, if_false, hback]

theorem decimal_cons (n : Int) :
    ∃ b tail, decimal n = b :: tail ∧ StartsScalar b ∧ ∀ rest,
      scalar b (tail ++ rest) = (do
        let (m, s) ← NumberLiteral.read (decide (n < 0)) (decimalDigits n.natAbs ++ rest)
        return (.number m, s)) := by
  by_cases hn : n < 0
  · refine ⟨Octet.minus, decimalDigits n.natAbs, if_pos hn, by decide, fun rest => ?_⟩
    rw [decide_eq_true hn]
    rfl
  · obtain ⟨b, ds, hdigits, _, hall, _⟩ := decimalDigits_spell n.natAbs
    have hb := hall b List.mem_cons_self
    refine ⟨b, ds, by rw [decimal, if_neg hn, hdigits], startsScalar_of_isDigit hb, fun rest => ?_⟩
    rw [scalar, if_neg (ne_of_isDigit hb rfl), if_neg (ne_of_isDigit hb rfl),
      if_neg (ne_of_isDigit hb rfl), if_neg (ne_of_isDigit hb rfl), if_pos hb, decide_eq_false hn,
      hdigits, List.cons_append]

theorem reads_decimal {n : Int} (hleast : -0x8000000000000000 ≤ n)
    (hgreatest : n ≤ 0xffffffffffffffff) :
    Reads (value levels) (decimal n) (.number (.integer n)) := by
  intro before rest hbefore hrest
  obtain ⟨hsize, hinteger⟩ := integer_natAbs hleast hgreatest
  obtain ⟨b, tail, hdecimal, hb, hscalar⟩ := decimal_cons n
  rw [hdecimal, List.cons_append, value_scalar hbefore hb, hscalar,
    NumberLiteral.read_decimalDigits hsize hrest, hinteger]
  rfl

theorem Value.Spelled.starts {v : Value} (h : v.Spelled s) : StartsItem s := by
  cases h with
  | null => exact ⟨_, _, encode_null, by decide⟩
  | bool b =>
    cases b with
    | false => exact ⟨_, _, encode_false, by decide⟩
    | true => exact ⟨_, _, encode_true, by decide⟩
  | integer n =>
    obtain ⟨b, tail, hdecimal, ⟨hblank, _, _, hclose⟩, _⟩ := decimal_cons n
    exact ⟨b, tail, hdecimal, hblank, hclose⟩
  | string hs =>
    obtain ⟨tail, rfl, _⟩ := hs.read
    exact ⟨_, _, rfl, by decide⟩
  | list => exact ⟨_, _, rfl, by decide⟩
  | object => exact ⟨_, _, rfl, by decide⟩

theorem Value.Spelled.reads {v : Value} (h : v.Spelled s) (hfits : v.Fits levels) :
    Reads (value levels) s v := by
  -- Along the rules of spelling; the levels only fall where a list or an object opens.
  induction h generalizing levels with
  | null =>
    intro before rest hbefore _
    rw [encode_null, List.cons_append, value_scalar hbefore (by decide), scalar, if_pos rfl,
      readWord_append]
    rfl
  | bool b =>
    intro before rest hbefore _
    cases b with
    | false =>
      rw [if_neg (by decide), encode_false, List.cons_append, value_scalar hbefore (by decide),
        scalar, if_neg (by decide), if_neg (by decide), if_pos rfl, readWord_append]
      rfl
    | true =>
      rw [if_pos rfl, encode_true, List.cons_append, value_scalar hbefore (by decide), scalar,
        if_neg (by decide), if_pos rfl, readWord_append]
      rfl
  | integer n =>
    cases hfits with
    | integer hleast hgreatest => exact reads_decimal hleast hgreatest
  | string hs =>
    intro before rest hbefore _
    obtain ⟨tail, rfl, hread⟩ := hs.read
    rw [List.cons_append, value_scalar hbefore (by decide), scalar, if_neg (by decide),
      if_neg (by decide), if_neg (by decide), if_neg (by decide), if_neg (by decide), if_pos rfl,
      hread]
    rfl
  | @list entries body hbody hspelled ih =>
    cases hfits with
    | @list levels _ hitems =>
      intro before rest hbefore _
      obtain ⟨blank, hblank, hread⟩ := items_row (f := Prod.fst) rest hbody
        (hbody.length_lt Octet.closeBracket rest) fun e he text htext => by
          subst htext
          exact ⟨(hspelled e he).starts, ih e he (hitems _ (List.mem_map_of_mem he))⟩
      rw [value, skipBlanks_inBrackets hbefore]
      simp only [if_true, hread, ok_bind, closeList_end hblank, List.reverse_reverse]
      rfl
  | @object entries ms body horder hbody _ ih =>
    -- The members come in the order of the text, and inserting them puts them in that of `ms`.
    cases hfits with
    | @object levels _ hordered hvalues =>
      intro before rest hbefore _
      have hread := memberMap_row rest hbody horder hordered fun e he =>
        ih e he (hvalues e.1 (horder.mem_iff.mp (List.mem_map_of_mem he)))
      have hne : Octet.openBrace ≠ Octet.openBracket := by decide
      rw [value, skipBlanks_inBraces hbefore]
      simp only [if_neg hne, if_true, hread, ok_bind]
      rfl

/-- An object of arbitrary values is read from each way to write it. -/
theorem reads_map {ms : Members} (h : (Value.object ms).Spelled s)
    (hfits : (Value.object ms).Fits levels) : Reads (map levels) s ms := by
  intro before rest hbefore _
  cases h with
  | @object entries _ body horder hbody hspelled =>
    cases hfits with
    | @object levels _ hordered hvalues =>
      rw [map, skipBlanks_inBraces hbefore]
      show memberMap (value levels) (body ++ Octet.closeBrace :: rest) = _
      exact memberMap_row rest hbody horder hordered fun e he =>
        (hspelled e he).reads (hvalues e.1 (horder.mem_iff.mp (List.mem_map_of_mem he)))

end GzipStage.Json
