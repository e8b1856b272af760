import GzipStage.Proofs.Json.Settled.Skip

/-! What follows a value or a record does not change how it is read. -/
namespace GzipStage.Json

variable {α σ : Type} {s rest : Bytes}

/-! ### Frames -/

theorem nextItem_settled {first : Bool} {found : Option Bytes}
    (h : nextItem? first s = .ok found) (t : Bytes) :
    nextItem? first (s ++ t) = .ok (found.map (· ++ t)) := by
  rw [nextItem?] at h ⊢
  cases hs : skipBlanks s with
  | nil => simp [hs] at h
  | cons b s₁ =>
    rw [skipBlanks_append_of_cons hs]
    simp only [hs] at h ⊢
    split_ifs at h ⊢
    · cases h
      rfl
    · cases h
      rfl
    · cases hs₁ : skipBlanks s₁ with
      | nil => simp [hs₁] at h
      | cons c s₂ =>
        rw [skipBlanks_append_of_cons hs₁]
        simp only [hs₁] at h ⊢
        split_ifs at h ⊢
        cases h
        rfl

theorem closeList_settled (h : closeList s = .ok rest) (t : Bytes) :
    closeList (s ++ t) = .ok (rest ++ t) :=
  closeList_ok_iff.mpr (skipBlanks_append_of_cons (closeList_ok_iff.mp h) t)

theorem name_settled {b : UInt8} {found : Option (String × Bytes)}
    (h : nextName?.name b s = .ok found) (t : Bytes) :
    nextName?.name b (s ++ t) = .ok (found.map (Prod.map id (· ++ t))) := by
  rw [nextName?.name] at h ⊢
  split_ifs at h ⊢
  obtain ⟨⟨text, s₁⟩, hread, h⟩ := bind_ok_iff.mp h
  cases h
  rw [StringLiteral.read_selfDelimiting _ _ _ t hread, ok_bind]
  rfl

theorem nextName_settled {first : Bool} {found : Option (String × Bytes)}
    (h : nextName? first s = .ok found) (t : Bytes) :
    nextName? first (s ++ t) = .ok (found.map (Prod.map id (· ++ t))) := by
  rw [nextName?] at h ⊢
  cases hs : skipBlanks s with
  | nil => simp [hs] at h
  | cons b s₁ =>
    rw [skipBlanks_append_of_cons hs]
    simp only [hs] at h ⊢
    split_ifs at h ⊢
    · cases h
      rfl
    · exact name_settled h t
    · cases hs₁ : skipBlanks s₁ with
      | nil => simp [hs₁] at h
      | cons c s₂ =>
        rw [skipBlanks_append_of_cons hs₁]
        simp only [hs₁] at h ⊢
        split_ifs at h ⊢
        exact name_settled h t

theorem readColon_settled (h : readColon s = .ok rest) (t : Bytes) :
    readColon (s ++ t) = .ok (rest ++ t) :=
  readColon_ok_iff.mpr (skipBlanks_append_of_cons (readColon_ok_iff.mp h) t)

theorem closeObject_settled (h : closeObject s = .ok rest) (t : Bytes) :
    closeObject (s ++ t) = .ok (rest ++ t) :=
  closeObject_ok_iff.mpr (skipBlanks_append_of_cons (closeObject_ok_iff.mp h) t)

/-! ### Lists and objects -/

variable {fuel more levels : Nat}

theorem items_ne_nil {read : Bytes → Except Fault (α × Bytes)} {acc xs : List α}
    (h : items read fuel acc s = .ok (xs, rest)) : s ≠ [] := by
  rintro rfl
  cases fuel <;> cases h

theorem items_settled {read : Bytes → Except Fault (α × Bytes)} (hread : Settled read)
    {acc xs : List α} (h : items read fuel acc s = .ok (xs, rest)) (hmore : fuel ≤ more)
    (t : Bytes) : items read more acc (s ++ t) = .ok (xs, rest ++ t) := by
  induction fuel generalizing more acc s with
  | zero => cases h
  | succ fuel ih =>
    obtain ⟨more, rfl⟩ := Nat.exists_eq_add_one_of_ne_zero (Nat.ne_zero_of_lt hmore)
    rw [items_ok_iff] at h ⊢
    rcases h with ⟨hnext, rfl, rfl⟩ | ⟨s₁, x, s₂, hnext, hx, h⟩
    · exact .inl ⟨nextItem_settled hnext t, rfl, rfl⟩
    · exact .inr ⟨s₁ ++ t, x, s₂ ++ t, nextItem_settled hnext t,
        hread s₁ x s₂ t hx (items_ne_nil h), ih h (Nat.le_of_succ_le_succ hmore)⟩

theorem members_ne_nil {read : String → σ → Bytes → Except Fault (σ × Bytes)} {first : Bool}
    {x z : σ} (h : members read fuel first x s = .ok (z, rest)) : s ≠ [] := by
  rintro rfl
  cases fuel <;> cases h

theorem members_settled {read : String → σ → Bytes → Except Fault (σ × Bytes)}
    (hread : ∀ name x, Settled (read name x)) {first : Bool} {x z : σ}
    (h : members read fuel first x s = .ok (z, rest)) (hmore : fuel ≤ more) (t : Bytes) :
    members read more first x (s ++ t) = .ok (z, rest ++ t) := by
  induction fuel generalizing more first x s with
  | zero => cases h
  | succ fuel ih =>
    obtain ⟨more, rfl⟩ := Nat.exists_eq_add_one_of_ne_zero (Nat.ne_zero_of_lt hmore)
    rw [members_ok_iff] at h ⊢
    rcases h with ⟨hnext, rfl, rfl⟩ | ⟨name, s₁, y, s₂, hnext, hy, h⟩
    · exact .inl ⟨nextName_settled hnext t, rfl, rfl⟩
    · exact .inr ⟨name, s₁ ++ t, y, s₂ ++ t, nextName_settled hnext t,
        hread name x s₁ y s₂ t hy (members_ne_nil h), ih h (Nat.le_of_succ_le_succ hmore)⟩

theorem readInto_settled {read : Bytes → Except Fault (Value × Bytes)} (hread : Settled read)
    (name : String) (ms : Members) : Settled (readInto read name ms) := by
  intro s x rest t h hrest
  simp only [readInto, bind_ok_iff, Prod.exists, Except.ok.injEq, Prod.mk.injEq] at h ⊢
  obtain ⟨s₁, hcolon, v, _, hv, rfl, rfl⟩ := h
  exact ⟨s₁ ++ t, readColon_settled hcolon t, v, _, hread s₁ v _ t hv hrest, rfl, rfl⟩

theorem memberMap_selfDelimiting {read : Bytes → Except Fault (Value × Bytes)}
    (hread : Settled read) : SelfDelimiting (memberMap read) := by
  intro s ms rest t h
  rw [memberMap_ok_iff] at h ⊢
  obtain ⟨s₁, hmembers, hclose⟩ := h
  have hfuel : s.length + 1 ≤ (s ++ t).length + 1 := by simp
  exact ⟨s₁ ++ t, members_settled (readInto_settled hread) hmembers hfuel t,
    closeObject_settled hclose t⟩

theorem scalar_settled {b : UInt8} : Settled (scalar b) := by
  intro s v rest t h hrest
  unfold scalar at h ⊢
  split_ifs at h ⊢
  all_goals
    simp only [bind_ok_iff, Prod.exists, pure, Except.pure, Except.ok.injEq, Prod.mk.injEq] at h ⊢
  · obtain ⟨_, hword, rfl, rfl⟩ := h
    exact ⟨_, readWord_settled hword t, rfl, rfl⟩
  · obtain ⟨_, hword, rfl, rfl⟩ := h
    exact ⟨_, readWord_settled hword t, rfl, rfl⟩
  · obtain ⟨_, hword, rfl, rfl⟩ := h
    exact ⟨_, readWord_settled hword t, rfl, rfl⟩
  · obtain ⟨n, _, hnumber, rfl, rfl⟩ := h
    exact ⟨n, _, NumberLiteral.read_settled true s n _ t hnumber hrest, rfl, rfl⟩
  · obtain ⟨n, _, hnumber, rfl, rfl⟩ := h
    exact ⟨n, _, NumberLiteral.read_settled false (b :: s) n _ t hnumber hrest, rfl, rfl⟩
  · obtain ⟨text, _, hstring, rfl, rfl⟩ := h
    exact ⟨text, _, StringLiteral.read_selfDelimiting s text _ t hstring, rfl, rfl⟩

/-- By induction on the levels, for the items of a list are values one level further down. -/
theorem value_settled (levels : Nat) : Settled (value levels) := by
  induction levels using Nat.strongRecOn with
  | ind levels ih =>
    intro s v rest t h hrest
    rw [value_ok_iff] at h ⊢
    rcases h with ⟨below, s₁, xs, s₂, rfl, hs, hitems, hclose, rfl⟩ |
      ⟨below, s₁, ms, rfl, hs, hmap, rfl⟩ | ⟨b, s₁, hs, hlist, hobject, h⟩
    · have hfuel : s₁.length + 1 ≤ (s₁ ++ t).length + 1 := by simp
      exact .inl ⟨below, s₁ ++ t, xs, s₂ ++ t, rfl, skipBlanks_append_of_cons hs t,
        items_settled (ih below (Nat.lt_succ_self below)) hitems hfuel t,
        closeList_settled hclose t, rfl⟩
    · exact .inr (.inl ⟨below, s₁ ++ t, ms, rfl, skipBlanks_append_of_cons hs t,
        memberMap_selfDelimiting (ih below (Nat.lt_succ_self below)) s₁ ms rest t hmap, rfl⟩)
    · exact .inr (.inr ⟨b, s₁ ++ t, skipBlanks_append_of_cons hs t, hlist, hobject,
        scalar_settled s₁ v rest t h hrest⟩)

/-! ### Records -/

theorem string_selfDelimiting (levels : Nat) : SelfDelimiting (string levels) := by
  intro s text rest t h
  rw [string_ok_iff] at h ⊢
  obtain ⟨s₁, hs, hread⟩ := h
  exact ⟨s₁ ++ t, skipBlanks_append_of_cons hs t,
    StringLiteral.read_selfDelimiting s₁ text rest t hread⟩

theorem map_selfDelimiting (levels : Nat) : SelfDelimiting (map levels) := by
  intro s ms rest t h
  rw [map_ok_iff] at h ⊢
  obtain ⟨below, s₁, hlevels, hs, hmap⟩ := h
  exact ⟨below, s₁ ++ t, hlevels, skipBlanks_append_of_cons hs t,
    memberMap_selfDelimiting (value_settled below) s₁ ms rest t hmap⟩

theorem field_settled {name : String} {reader : Reader α} {set : σ → α → σ}
    (hreader : Settled (reader levels)) (x : σ) :
    Settled ((Field.of name reader set).read levels x) := by
  intro s y rest t h hrest
  rw [field_ok_iff] at h ⊢
  obtain ⟨a, ha, hset⟩ := h
  exact ⟨a, hreader s a rest t ha hrest, hset⟩

theorem positional_settled {fields : List (Field σ)}
    (hfields : ∀ field ∈ fields, ∀ x, Settled (field.read levels x)) {first : Bool} {x z : σ}
    (h : Record.positional levels fields first x s = .ok (z, rest)) (hrest : rest ≠ [])
    (t : Bytes) : Record.positional levels fields first x (s ++ t) = .ok (z, rest ++ t) := by
  induction fields generalizing first x s with
  | nil =>
    cases h
    rfl
  | cons field fields ih =>
    rw [positional_ok_iff] at h ⊢
    rcases h with ⟨hnext, rfl, rfl⟩ | ⟨s₁, y, s₂, hnext, hread, h⟩
    · exact .inl ⟨nextItem_settled hnext t, rfl, rfl⟩
    · -- At the end of the octets neither another item nor the bracket would be found.
      have hs₂ : s₂ ≠ [] := by
        rintro rfl
        cases fields with
        | nil =>
          cases h
          exact hrest rfl
        | cons field fields => cases h
      exact .inr ⟨s₁ ++ t, y, s₂ ++ t, nextItem_settled hnext t,
        hfields field List.mem_cons_self x s₁ y s₂ t hread hs₂,
        ih (fun f hf => hfields f (List.mem_cons_of_mem _ hf)) h⟩

theorem member_settled {fields : List (Field σ)}
    (hfields : ∀ field ∈ fields, ∀ x, Settled (field.read levels x)) (name : String)
    (x : σ × List String) : Settled (Record.member fields levels name x) := by
  obtain ⟨x, seen⟩ := x
  rintro s ⟨y, seen'⟩ rest t h hrest
  rw [member_ok_iff] at h ⊢
  rcases h with ⟨hfind, s₁, hcolon, hskip, hsame⟩ | ⟨field, hfind, hseen, s₁, hcolon, hread, hsame⟩
  · exact .inl ⟨hfind, s₁ ++ t, readColon_settled hcolon t, Skip.value_settled hskip hrest t, hsame⟩
  · exact .inr ⟨field, hfind, hseen, s₁ ++ t, readColon_settled hcolon t,
      hfields field (List.mem_of_find?_eq_some hfind) x s₁ y rest t hread hrest, hsame⟩

theorem record_selfDelimiting {name : String} {fields : List (Field σ)} {initial : σ}
    (hfields : ∀ levels, ∀ field ∈ fields, ∀ x, Settled (field.read levels x)) (levels : Nat) :
    SelfDelimiting (record name fields initial levels) := by
  intro s x rest t h
  rw [record_ok_iff] at h ⊢
  obtain ⟨below, hbelow, h⟩ := h
  refine ⟨below, hbelow, ?_⟩
  rcases h with ⟨s₁, s₂, hs, hread, hclose⟩ | ⟨s₁, seen, s₂, hs, hread, hclose⟩
  · have hs₂ : s₂ ≠ [] := by
      rintro rfl
      cases hclose
    exact .inl ⟨s₁ ++ t, s₂ ++ t, skipBlanks_append_of_cons hs t,
      positional_settled (hfields below) hread hs₂ t, closeList_settled hclose t⟩
  · have hfuel : s₁.length + 1 ≤ (s₁ ++ t).length + 1 := by simp
    exact .inr ⟨s₁ ++ t, seen, s₂ ++ t, skipBlanks_append_of_cons hs t,
      members_settled (member_settled (hfields below)) hread hfuel t, closeObject_settled hclose t⟩

end GzipStage.Json
