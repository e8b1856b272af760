import GzipStage.Proofs.Json.Compact
import GzipStage.Proofs.Json.Sound.Map

/-! How deep a value nests decides whether it is read. -/
namespace GzipStage.Json

/-! ### Depth, and what is kept -/

mutual

/-- How many lists and objects are open at once. -/
def Value.depth : Value → Nat
  | .array items => itemsDepth items + 1
  | .object ms => membersDepth ms + 1
  | _ => 0

def itemsDepth : List Value → Nat
  | [] => 0
  | v :: vs => max v.depth (itemsDepth vs)

def membersDepth : List (String × Value) → Nat
  | [] => 0
  | (_, v) :: ms => max v.depth (membersDepth ms)

end

mutual

/-- The value with the members of all objects inserted one after another. -/
def Value.kept : Value → Value
  | .array items => .array (keptItems items)
  | .object ms => .object ((keptMembers ms).foldl (fun ms m => Members.insert m.1 m.2 ms) [])
  | v => v

def keptItems : List Value → List Value
  | [] => []
  | v :: vs => v.kept :: keptItems vs

def keptMembers : List (String × Value) → List (String × Value)
  | [] => []
  | (name, v) :: ms => (name, v.kept) :: keptMembers ms

end

variable {α β : Type} {s : Bytes} {texts : List Bytes} {entries : List (String × Bytes)}
  {levels n : Nat} {v w : Value} {vs : List Value} {ms : List (String × Value)}

theorem itemsDepth_le_iff : itemsDepth vs ≤ n ↔ ∀ v ∈ vs, v.depth ≤ n := by
  induction vs with
  | nil => simp [itemsDepth]
  | cons v vs ih => rw [itemsDepth, Nat.max_le, ih, List.forall_mem_cons]

theorem membersDepth_le_iff : membersDepth ms ≤ n ↔ ∀ m ∈ ms, m.2.depth ≤ n := by
  induction ms with
  | nil => simp [membersDepth]
  | cons m ms ih => rw [membersDepth, Nat.max_le, ih, List.forall_mem_cons]

theorem keptItems_eq (vs : List Value) : keptItems vs = vs.map Value.kept := by
  induction vs with
  | nil => rw [keptItems, List.map_nil]
  | cons v vs ih => rw [keptItems, ih, List.map_cons]

theorem keptMembers_eq (ms : List (String × Value)) :
    keptMembers ms = ms.map fun m => (m.1, m.2.kept) := by
  induction ms with
  | nil => rw [keptMembers, List.map_nil]
  | cons m ms ih => rw [keptMembers, ih, List.map_cons]

/-- A value whose objects have their names in order is kept as it is. -/
theorem Value.Fits.kept (h : v.Fits levels) : v.kept = v := by
  induction h with
  | null => rfl
  | bool => rfl
  | integer => rfl
  | string => rfl
  | list _ ih => rw [Value.kept, keptItems_eq, List.map_congr_left ih, List.map_id']
  | @object _ ms hnames _ ih =>
    have hsame : ∀ m ∈ ms, (m.1, Value.kept m.2) = m := fun m hm => Prod.ext rfl (ih m hm)
    rw [Value.kept, keptMembers_eq, List.map_congr_left hsame, List.map_id',
      Members.foldl_insert_of_perm (.refl _) hnames]

/-! ### How values are written -/

/-- The ways to write a value whose objects have their members in the order of the text.  Numbers
are integers in the 64-bit ranges. -/
inductive Value.SpelledOut : Value → Bytes → Prop
  | null : Value.null.SpelledOut (Utf8.encode "null")
  | bool (b : Bool) : (Value.bool b).SpelledOut (Utf8.encode (if b then "true" else "false"))
  | integer {n : Int} (hleast : -0x8000000000000000 ≤ n) (hgreatest : n ≤ 0xffffffffffffffff) :
      (Value.number (.integer n)).SpelledOut (decimal n)
  | string {t : String} {s : Bytes} (hs : StringText t s) : (Value.string t).SpelledOut s
  | list {entries : List (Value × Bytes)} {body : Bytes}
      (hbody : Row (fun e text => e.2 = text) entries body)
      (hitems : ∀ e ∈ entries, e.1.SpelledOut e.2) :
      (Value.array (entries.map Prod.fst)).SpelledOut (inBrackets body)
  | object {entries : List ((String × Value) × Bytes)} {body : Bytes}
      (hbody : Row (fun e => NamedMember e.1.1 e.2) entries body)
      (hvalues : ∀ e ∈ entries, e.1.2.SpelledOut e.2) :
      (Value.object (entries.map Prod.fst)).SpelledOut (inBraces body)

section Rows

variable {P : α → Bytes → Prop} {Q : β → Bytes → Prop} {xs : List α} {f : α → β}

theorem RowTail.map (h : RowTail P xs s) (hPQ : ∀ x text, P x text → Q (f x) text) :
    RowTail Q (xs.map f) s := by
  induction h with
  | done hblank => exact .done hblank
  | item hbefore hafter htext _ ih => exact .item hbefore hafter (hPQ _ _ htext) ih

theorem Row.map (h : Row P xs s) (hPQ : ∀ x text, P x text → Q (f x) text) :
    Row Q (xs.map f) s := by
  cases h with
  | none hblank => exact .none hblank
  | first hbefore htext htail => exact .first hbefore (hPQ _ _ htext) (htail.map hPQ)

end Rows

/-- The members of an object as they stand in the text. -/
def memberTexts (entries : List ((String × Value) × Bytes)) : List (String × Bytes) :=
  entries.map fun e => (e.1.1, e.2)

theorem Value.SpelledOut.isText (h : v.SpelledOut s) : Text s := by
  induction h with
  | null => exact .null
  | bool b => exact .bool b
  | integer => exact .number (numberText_decimal _)
  | string hs => exact .string hs.literal
  | list hbody _ ih =>
    exact .list (hbody.map fun _ _ htext => htext) (List.forall_mem_map.mpr ih)
  | object hbody _ ih =>
    have hobject : ObjectText (memberTexts _) _ :=
      ⟨_, hbody.map fun _ _ hmember => hmember, List.forall_mem_map.mpr ih, rfl⟩
    exact hobject.isText

/-! ### Reading -/

/-- What has been put together from members has been read from each of them. -/
theorem reads_of_folds {read : Bytes → Except Fault (Value × Bytes)} {start found : Members}
    (hsound : Sound read) (htexts : ∀ e ∈ entries, Text e.2)
    (h : Folds (readInto read) Prod.fst Prod.snd start entries found) :
    ∀ e ∈ entries, ∃ v, Reads read e.2 v := by
  induction h with
  | nil => exact List.forall_mem_nil _
  | cons hread _ ih =>
    obtain ⟨htext, hmore⟩ := List.forall_mem_cons.mp htexts
    obtain ⟨v, hv, -⟩ := readInto_inserts hsound htext hread
    exact List.forall_mem_cons.mpr ⟨⟨v, hv⟩, ih hmore⟩

theorem ListText.opens (h : ListText texts s) :
    ∃ tail, skipBlanks s = Octet.openBracket :: tail := by
  rw [h.isText.skipBlanks]
  obtain ⟨body, _, _, rfl⟩ := h
  exact ⟨_, rfl⟩

theorem ObjectText.opens (h : ObjectText entries s) :
    ∃ tail, skipBlanks s = Octet.openBrace :: tail := by
  rw [h.isText.skipBlanks]
  obtain ⟨body, _, _, rfl⟩ := h
  exact ⟨_, rfl⟩

/-- A list that is read takes one level, and its items are read with those that are left. -/
theorem reads_items (h : ListText texts s) (hreads : Reads (value levels) s w) :
    ∃ below, levels = below + 1 ∧ ∀ text ∈ texts, ∃ v, Reads (value below) text v := by
  have hread := ((value_sound levels).reads_iff h.isText).mp hreads
  obtain ⟨tail, hopens⟩ := h.opens
  rcases value_ok_iff.mp hread with ⟨below, s₁, xs, s₂, rfl, hskip, hitems, hclose, -⟩ |
    ⟨_, _, _, _, hskip, _, _⟩ | ⟨b, _, hskip, hlist, _, _⟩
  · obtain ⟨found, body, hbody, hfound, rfl, -⟩ :=
      items_sound (value_sound below) hitems hclose
    have hrow : Row (fun (e : Value × Bytes) text => e.2 = text) found body := hbody
    have htexts : ListText (found.map Prod.snd) s :=
      ⟨body, hrow.map fun _ _ htext => htext,
        List.forall_mem_map.mpr fun e he => (hfound e he).1, h.isText.skipBlanks.symm.trans hskip⟩
    obtain rfl := h.unique htexts
    exact ⟨below, rfl, List.forall_mem_map.mpr fun e he => ⟨e.1, (hfound e he).2⟩⟩
  · rw [hopens] at hskip
    exact absurd (List.cons.inj hskip).1 openBracket_ne_openBrace
  · rw [hopens] at hskip
    exact absurd (List.cons.inj hskip).1.symm hlist

/-- An object that is read takes one level, and its members are read with those that are left. -/
theorem reads_members (h : ObjectText entries s) (hreads : Reads (value levels) s w) :
    ∃ below, levels = below + 1 ∧ ∀ e ∈ entries, ∃ v, Reads (value below) e.2 v := by
  have hread := ((value_sound levels).reads_iff h.isText).mp hreads
  obtain ⟨tail, hopens⟩ := h.opens
  rcases value_ok_iff.mp hread with ⟨_, _, _, _, _, hskip, _, _, _⟩ |
    ⟨below, s₁, ms, rfl, hskip, hmap, -⟩ | ⟨b, _, hskip, _, hobject, _⟩
  · rw [hopens] at hskip
    exact absurd (List.cons.inj hskip).1.symm openBracket_ne_openBrace
  · obtain ⟨found, body, hbody, htexts, rfl, hfolds⟩ := memberMap_sound (value_sound below) hmap
    obtain rfl := h.unique ⟨body, hbody, htexts, h.isText.skipBlanks.symm.trans hskip⟩
    exact ⟨below, rfl, reads_of_folds (value_sound below) htexts hfolds⟩
  · rw [hopens] at hskip
    exact absurd (List.cons.inj hskip).1.symm hobject

theorem Value.SpelledOut.depth_le (h : v.SpelledOut s) (hreads : Reads (value levels) s w) :
    v.depth ≤ levels := by
  induction h generalizing levels w with
  | null | bool | integer | string => exact Nat.zero_le _
  | @list entries body hbody hspelled ih =>
    have htexts : ListText (entries.map Prod.snd) (inBrackets body) :=
      ⟨_, hbody.map fun _ _ htext => htext,
        List.forall_mem_map.mpr fun e he => (hspelled e he).isText, rfl⟩
    obtain ⟨below, rfl, hitems⟩ := reads_items htexts hreads
    rw [Value.depth, Nat.succ_le_succ_iff, itemsDepth_le_iff]
    refine List.forall_mem_map.mpr fun e he => ?_
    obtain ⟨v, hv⟩ := hitems e.2 (List.mem_map_of_mem he)
    exact ih e he hv
  | @object entries body hbody hspelled ih =>
    have htexts : ObjectText (memberTexts entries) (inBraces body) :=
      ⟨_, hbody.map fun _ _ hmember => hmember,
        List.forall_mem_map.mpr fun e he => (hspelled e he).isText, rfl⟩
    obtain ⟨below, rfl, hmembers⟩ := reads_members htexts hreads
    rw [Value.depth, Nat.succ_le_succ_iff, membersDepth_le_iff]
    refine List.forall_mem_map.mpr fun e he => ?_
    obtain ⟨v, hv⟩ := hmembers _ (List.mem_map_of_mem he)
    exact ih e he hv

/-- A value that nests no deeper is read, from each way to write it. -/
theorem Value.SpelledOut.reads (h : v.SpelledOut s) (hdepth : v.depth ≤ levels) :
    Reads (value levels) s v.kept := by
  induction h generalizing levels with
  | null => exact Value.Spelled.null.reads .null
  | bool b => exact (Value.Spelled.bool b).reads (.bool b)
  | integer hleast hgreatest => exact reads_decimal hleast hgreatest
  | @string t _ hs => exact (Value.Spelled.string hs).reads (.string t)
  | @list entries body hbody hspelled ih =>
    rw [Value.depth] at hdepth
    obtain ⟨levels, rfl⟩ := Nat.exists_eq_add_one_of_ne_zero (Nat.ne_zero_of_lt hdepth)
    rw [Nat.succ_le_succ_iff, itemsDepth_le_iff, List.forall_mem_map] at hdepth
    intro before rest hbefore _
    obtain ⟨blank, hblank, hread⟩ := items_row (f := fun e => e.1.kept) rest hbody
      (hbody.length_lt Octet.closeBracket rest) fun e he text htext => by
        subst htext
        exact ⟨(hspelled e he).isText.starts, ih e he (hdepth e he)⟩
    refine value_ok_iff.mpr (.inl ⟨levels, _, _, _, rfl, skipBlanks_inBrackets hbefore, hread,
      closeList_end hblank, ?_⟩)
    rw [List.reverse_reverse, Value.kept, keptItems_eq, List.map_map]
    rfl
  | @object entries body hbody hspelled ih =>
    rw [Value.depth] at hdepth
    obtain ⟨levels, rfl⟩ := Nat.exists_eq_add_one_of_ne_zero (Nat.ne_zero_of_lt hdepth)
    rw [Nat.succ_le_succ_iff, membersDepth_le_iff, List.forall_mem_map] at hdepth
    intro before rest hbefore _
    have hrow : Row (fun e => NamedMember e.1.1 e.2)
        (entries.map fun e => ((e.1.1, e.1.2.kept), e.2)) body :=
      hbody.map fun _ _ hmember => hmember
    have hread := memberMap_inserts rest hrow
      (List.forall_mem_map.mpr fun e he => ih e he (hdepth e he))
    refine value_ok_iff.mpr
      (.inr (.inl ⟨levels, _, _, rfl, skipBlanks_inBraces hbefore, hread, ?_⟩))
    rw [Value.kept, keptMembers_eq, List.map_map, List.map_map]
    rfl

/-- A value is read just when it nests no deeper than the levels allow. -/
theorem Value.SpelledOut.reads_iff (h : v.SpelledOut s) :
    Reads (value levels) s w ↔ v.depth ≤ levels ∧ w = v.kept := by
  constructor
  · intro hreads
    have hdepth := h.depth_le hreads
    exact ⟨hdepth, hreads.inj (h.reads hdepth)⟩
  · rintro ⟨hdepth, rfl⟩
    exact h.reads hdepth

end GzipStage.Json
