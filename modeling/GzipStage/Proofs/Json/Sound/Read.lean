import GzipStage.Proofs.Json.Sound.Sequence

/-! What is read as a value is written as one. -/
namespace GzipStage.Json

variable {α : Type} {s rest before body : Bytes} {levels : Nat} {b : UInt8} {v : Value}

/-! ### Scalars -/

/-- What is read as a scalar is one, and it is the same whatever follows it. -/
theorem scalar_sound (h : scalar b s = .ok (v, rest)) (hrest : Stops rest) :
    ∃ tail, Text (b :: tail) ∧ s = tail ++ rest ∧
      ∀ rest', Stops rest' → scalar b (tail ++ rest') = .ok (v, rest') := by
  rw [scalar] at h
  split_ifs at h with hnull htrue hfalse hminus hdigit hquote
  · obtain ⟨_, hword, h⟩ := bind_ok_iff.mp h
    cases h
    refine ⟨restOfNull, hnull ▸ encode_null ▸ .null, eq_append_of_readWord hword, fun rest' _ => ?_⟩
    rw [scalar, if_pos hnull, readWord_append]
    rfl
  · obtain ⟨_, hword, h⟩ := bind_ok_iff.mp h
    cases h
    refine ⟨restOfTrue, htrue ▸ encode_true ▸ .bool true, eq_append_of_readWord hword,
      fun rest' _ => ?_⟩
    rw [scalar, if_neg hnull, if_pos htrue, readWord_append]
    rfl
  · obtain ⟨_, hword, h⟩ := bind_ok_iff.mp h
    cases h
    refine ⟨restOfFalse, hfalse ▸ encode_false ▸ .bool false, eq_append_of_readWord hword,
      fun rest' _ => ?_⟩
    rw [scalar, if_neg hnull, if_neg htrue, if_pos hfalse, readWord_append]
    rfl
  · obtain ⟨⟨n, s₁⟩, hread, h⟩ := bind_ok_iff.mp h
    cases h
    obtain ⟨text, _, htext, rfl⟩ := Skip.number_sound (NumberLiteral.skip_number hread)
    refine ⟨text, hminus ▸ .number htext, rfl, fun rest' hrest' => ?_⟩
    rw [scalar, if_neg hnull, if_neg htrue, if_neg hfalse, if_pos hminus,
      NumberLiteral.read_of_read_append hrest hrest' hread]
    rfl
  · obtain ⟨⟨n, s₁⟩, hread, h⟩ := bind_ok_iff.mp h
    cases h
    obtain ⟨text, htext, _, hsplit⟩ := Skip.number_sound (NumberLiteral.skip_number hread)
    obtain ⟨d, tail, rfl, _⟩ := (Text.number htext).starts
    obtain ⟨rfl, rfl⟩ := List.cons.inj hsplit
    refine ⟨tail, .number htext, rfl, fun rest' hrest' => ?_⟩
    have hread : NumberLiteral.read false (b :: tail ++ rest) = .ok (n, rest) := hread
    rw [scalar, if_neg hnull, if_neg htrue, if_neg hfalse, if_neg hminus, if_pos hdigit,
      ← List.cons_append, NumberLiteral.read_of_read_append hrest hrest' hread]
    rfl
  · obtain ⟨⟨t, s₁⟩, hread, h⟩ := bind_ok_iff.mp h
    cases h
    obtain ⟨literal, hliteral, hsplit⟩ := stringText_of_read hread
    obtain ⟨tail, rfl, hmore⟩ := hliteral.read
    refine ⟨tail, hquote ▸ .string hliteral.literal, (List.cons.inj hsplit).2, fun rest' _ => ?_⟩
    rw [scalar, if_neg hnull, if_neg htrue, if_neg hfalse, if_neg hminus, if_neg hdigit,
      if_pos hquote, hmore]
    rfl

/-- A value that is neither a list nor an object does not depend on the levels. -/
theorem startsScalar_of_scalar (h : scalar b s = .ok (v, rest)) : StartsScalar b := by
  rw [scalar] at h
  split_ifs at h with hnull htrue hfalse hminus hdigit hquote
  · exact hnull ▸ by decide
  · exact htrue ▸ by decide
  · exact hfalse ▸ by decide
  · exact hminus ▸ by decide
  · exact startsScalar_of_isDigit hdigit
  · exact hquote ▸ by decide

theorem string_sound (levels : Nat) : Sound (string levels) := by
  intro s t rest h _
  obtain ⟨s₁, hskip, hread⟩ := string_ok_iff.mp h
  obtain ⟨before, hbefore, rfl⟩ := skipBlanks_eq_cons hskip
  obtain ⟨literal, hliteral, hsplit⟩ := stringText_of_read hread
  exact ⟨before, literal, hbefore, .string hliteral.literal, by rw [hsplit], hliteral.reads⟩

/-! ### Lists and objects -/

theorem memberMap_sound {read : Bytes → Except Fault (Value × Bytes)} {ms : Members}
    (hread : Sound read) (h : memberMap read s = .ok (ms, rest)) :
    ∃ (entries : List (String × Bytes)) (body : Bytes),
      Row (fun e => NamedMember e.1 e.2) entries body ∧ (∀ e ∈ entries, Text e.2) ∧
      s = body ++ Octet.closeBrace :: rest ∧
      Folds (readInto read) Prod.fst Prod.snd [] entries ms := by
  obtain ⟨s₁, hmembers, hclose⟩ := memberMap_ok_iff.mp h
  have hmember (name : String) (ms : Members) : SoundMember (readInto read name ms) :=
    hread.member fun v => Members.insert name v ms
  exact members_sound hmember hmembers hclose

theorem memberMap_of_folds {read : Bytes → Except Fault (Value × Bytes)} {ms : Members}
    {entries : List (String × Bytes)} (hbody : Row (fun e => NamedMember e.1 e.2) entries body)
    (hfolds : Folds (readInto read) Prod.fst Prod.snd [] entries ms) (rest : Bytes) :
    memberMap read (body ++ Octet.closeBrace :: rest) = .ok (ms, rest) := by
  obtain ⟨blank, hblank, hmembers⟩ :=
    members_row rest hbody hfolds (hbody.length_lt Octet.closeBrace rest)
  exact memberMap_ok_iff.mpr ⟨_, hmembers, closeObject_end hblank⟩

theorem value_sound (levels : Nat) : Sound (value levels) := by
  induction levels using Nat.strongRecOn with
  | ind levels ih =>
    intro s v rest h hrest
    rcases value_ok_iff.mp h with ⟨below, s₁, xs, s₂, rfl, hskip, hitems, hclose, rfl⟩ |
      ⟨below, s₁, ms, rfl, hskip, hmap, rfl⟩ | ⟨b, s₁, hskip, hlist, hobject, hscalar⟩
    · obtain ⟨before, hbefore, rfl⟩ := skipBlanks_eq_cons hskip
      obtain ⟨entries, body, hbody, hentries, rfl, rfl⟩ :=
        items_sound (ih below (Nat.lt_succ_self _)) hitems hclose
      have hbody : Row (fun (e : Value × Bytes) text => e.2 = text) entries body := hbody
      obtain ⟨texts, htexts, hall⟩ := hbody.exchange (Q := Eq) (R := Text)
        fun e he text htext => ⟨e.2, htext, (hentries e he).1⟩
      refine ⟨before, inBrackets body, hbefore, .list htexts hall, by simp [inBrackets], ?_⟩
      intro before' rest' hbefore' _
      obtain ⟨blank, hblank, hread⟩ := items_row (f := Prod.fst) rest' hbody
        (hbody.length_lt Octet.closeBracket rest') fun e he text htext => by
          subst htext
          exact ⟨(hentries e he).1.starts, (hentries e he).2⟩
      refine value_ok_iff.mpr (.inl ⟨below, _, _, _, rfl, skipBlanks_inBrackets hbefore', hread,
        closeList_end hblank, ?_⟩)
      rw [List.append_nil]
    · obtain ⟨before, hbefore, rfl⟩ := skipBlanks_eq_cons hskip
      obtain ⟨entries, body, hbody, htexts, rfl, hfolds⟩ :=
        memberMap_sound (ih below (Nat.lt_succ_self _)) hmap
      have hobject : ObjectText entries (inBraces body) := ⟨body, hbody, htexts, rfl⟩
      refine ⟨before, inBraces body, hbefore, hobject.isText, ?_, ?_⟩
      · simp [inBraces]
      · intro before' rest' hbefore' _
        refine value_ok_iff.mpr (.inr (.inl ⟨below, _, _, rfl, skipBlanks_inBraces hbefore',
          memberMap_of_folds hbody hfolds rest', rfl⟩))
    · obtain ⟨before, hbefore, rfl⟩ := skipBlanks_eq_cons hskip
      obtain ⟨tail, htext, rfl, hmore⟩ := scalar_sound hscalar hrest
      refine ⟨before, b :: tail, hbefore, htext, rfl, ?_⟩
      intro before' rest' hbefore' hrest'
      rw [List.cons_append, value_scalar hbefore' (startsScalar_of_scalar hscalar)]
      exact hmore rest' hrest'

theorem map_sound (levels : Nat) : Sound (map levels) := by
  intro s ms rest h _
  obtain ⟨below, s₁, rfl, hskip, hmap⟩ := map_ok_iff.mp h
  obtain ⟨before, hbefore, rfl⟩ := skipBlanks_eq_cons hskip
  obtain ⟨entries, body, hbody, htexts, rfl, hfolds⟩ := memberMap_sound (value_sound below) hmap
  have hobject : ObjectText entries (inBraces body) := ⟨body, hbody, htexts, rfl⟩
  refine ⟨before, inBraces body, hbefore, hobject.isText, ?_, ?_⟩
  · simp [inBraces]
  · intro before' rest' hbefore' _
    exact map_ok_iff.mpr ⟨below, _, rfl, skipBlanks_inBraces hbefore',
      memberMap_of_folds hbody hfolds rest'⟩

/-! ### More levels -/

theorem items_mono {read read' : Bytes → Except Fault (α × Bytes)} {acc xs : List α} {fuel : Nat}
    (hread : ∀ s x rest, read s = .ok (x, rest) → read' s = .ok (x, rest))
    (h : items read fuel acc s = .ok (xs, rest)) : items read' fuel acc s = .ok (xs, rest) := by
  induction fuel generalizing acc s with
  | zero => cases h
  | succ fuel ih =>
    rcases items_ok_iff.mp h with hend | ⟨s₁, x, s₂, hnext, hx, hmore⟩
    · exact items_ok_iff.mpr (.inl hend)
    · exact items_ok_iff.mpr (.inr ⟨s₁, x, s₂, hnext, hread _ _ _ hx, ih hmore⟩)

theorem members_mono {σ : Type} {read read' : String → σ → Bytes → Except Fault (σ × Bytes)}
    {first : Bool} {x z : σ} {fuel : Nat}
    (hread : ∀ name x s y rest, read name x s = .ok (y, rest) → read' name x s = .ok (y, rest))
    (h : members read fuel first x s = .ok (z, rest)) :
    members read' fuel first x s = .ok (z, rest) := by
  induction fuel generalizing first x s with
  | zero => cases h
  | succ fuel ih =>
    rcases members_ok_iff.mp h with hend | ⟨name, s₁, y, s₂, hnext, hy, hmore⟩
    · exact members_ok_iff.mpr (.inl hend)
    · exact members_ok_iff.mpr (.inr ⟨name, s₁, y, s₂, hnext, hread _ _ _ _ _ hy, ih hmore⟩)

theorem memberMap_mono {read read' : Bytes → Except Fault (Value × Bytes)} {ms : Members}
    (hread : ∀ s v rest, read s = .ok (v, rest) → read' s = .ok (v, rest))
    (h : memberMap read s = .ok (ms, rest)) : memberMap read' s = .ok (ms, rest) := by
  obtain ⟨s₁, hmembers, hclose⟩ := memberMap_ok_iff.mp h
  refine memberMap_ok_iff.mpr ⟨s₁, members_mono ?_ hmembers, hclose⟩
  intro name ms s ms' rest hinto
  obtain ⟨s₂, hcolon, hinto⟩ := bind_ok_iff.mp hinto
  obtain ⟨⟨v, s₃⟩, hv, hinto⟩ := bind_ok_iff.mp hinto
  exact bind_ok_iff.mpr ⟨s₂, hcolon, bind_ok_iff.mpr ⟨(v, s₃), hread _ _ _ hv, hinto⟩⟩

theorem value_mono {more : Nat} (hmore : levels ≤ more) (h : value levels s = .ok (v, rest)) :
    value more s = .ok (v, rest) := by
  induction levels using Nat.strongRecOn generalizing more s v rest with
  | ind levels ih =>
    rcases value_ok_iff.mp h with ⟨below, s₁, xs, s₂, rfl, hskip, hitems, hclose, rfl⟩ |
      ⟨below, s₁, ms, rfl, hskip, hmap, rfl⟩ | hscalar
    · obtain ⟨more, rfl⟩ := Nat.exists_eq_add_one_of_ne_zero (Nat.ne_zero_of_lt hmore)
      have hread : ∀ s v rest, value below s = .ok (v, rest) → value more s = .ok (v, rest) :=
        fun _ _ _ => ih below (Nat.lt_succ_self _) (Nat.le_of_succ_le_succ hmore)
      exact value_ok_iff.mpr
        (.inl ⟨more, s₁, xs, s₂, rfl, hskip, items_mono hread hitems, hclose, rfl⟩)
    · obtain ⟨more, rfl⟩ := Nat.exists_eq_add_one_of_ne_zero (Nat.ne_zero_of_lt hmore)
      have hread : ∀ s v rest, value below s = .ok (v, rest) → value more s = .ok (v, rest) :=
        fun _ _ _ => ih below (Nat.lt_succ_self _) (Nat.le_of_succ_le_succ hmore)
      exact value_ok_iff.mpr
        (.inr (.inl ⟨more, s₁, ms, rfl, hskip, memberMap_mono hread hmap, rfl⟩))
    · exact value_ok_iff.mpr (.inr (.inr hscalar))

/-- What a value is read as inside a document, it is read as on its own. -/
theorem Reads.document {text : Bytes} (h : Reads (value levels) text v)
    (hmax : levels ≤ maxLevels) : document value text = .ok v := by
  have hread := value_mono hmax (h [] [] blank_nil stops_nil)
  rw [List.nil_append, List.append_nil] at hread
  exact document_ok_iff.mpr ⟨[], hread, blank_nil⟩

end GzipStage.Json
