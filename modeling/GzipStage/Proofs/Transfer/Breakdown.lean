import GzipStage.Proofs.Transfer.Writer

/-! Writers that go wrong after some octets. -/
namespace GzipStage.Transfer.Writer

/-- With `events` to come, `left` octets are taken in pieces; the next call goes wrong with `f` and
leaves `later` to come. -/
def FailsBy (habit : Habit) (f : WriteFault) (later : List WriteEvent) :
    (events : List WriteEvent) → (left : Nat) → Prop
  | [], left => left = 0 ∧ habit = .fault f ∧ later = []
  | .take total piece :: events, left =>
    0 < total ∧ 0 < piece ∧ total ≤ left ∧ FailsBy habit f later events (left - total)
  | .fault g :: events, left => left = 0 ∧ g = f ∧ later = events

/-- A call that goes wrong when `limit` octets have been taken in all, and what comes after it. -/
structure Breakdown where
  limit : Nat
  fault : WriteFault
  later : List WriteEvent
  habit : Habit

variable {w : Writer} {b : Breakdown}

/-- The breakdown is still to come. -/
structure Awaits (w : Writer) (b : Breakdown) : Prop where
  habit : w.habit = b.habit
  size_le : w.accepted.size ≤ b.limit
  fails : FailsBy b.habit b.fault b.later w.events (b.limit - w.accepted.size)

structure Broken (w : Writer) (b : Breakdown) : Prop where
  habit : w.habit = b.habit
  size_eq : w.accepted.size = b.limit
  events : w.events = b.later

/-- Every later call goes wrong as well. -/
structure Breakdown.Lasting (b : Breakdown) : Prop where
  later : ∀ event ∈ b.later, ∃ f, event = .fault f
  habit : ∃ f, b.habit = .fault f

/-- No later call goes wrong. -/
def Breakdown.Passing (b : Breakdown) : Prop := ∀ count, ServesBy b.habit b.later count

/-- What becomes of a writer that awaits a breakdown: an operation that does not fail leaves the
breakdown to come, and one that fails has met it. -/
def Meets (b : Breakdown) : Option IoError → Writer → Prop
  | none, w => w.Awaits b
  | some e, w => e = b.fault.error ∧ w.Broken b

theorem FailsBy.serves {habit : Habit} {f : WriteFault} {later events : List WriteEvent}
    {left count : Nat} (h : FailsBy habit f later events left) (hle : count ≤ left) :
    ServesBy habit events count := by
  induction events generalizing left count with
  | nil => exact .inl (Nat.le_zero.mp (h.1 ▸ hle))
  | cons event events ih =>
    cases event with
    | take total piece =>
      obtain ⟨htotal, hpiece, _, hmore⟩ := h
      exact .inr ⟨htotal, hpiece, ih hmore (Nat.sub_le_sub_right hle total)⟩
    | fault g => exact Nat.le_zero.mp (h.1 ▸ hle)

theorem Awaits.serves (h : w.Awaits b) {count : Nat} (hle : w.accepted.size + count ≤ b.limit) :
    w.Serves count := by
  unfold Serves
  rw [h.habit]
  exact h.fails.serves (by omega)

theorem Awaits.take {events : List WriteEvent} {piece : Bytes} (hhabit : w.habit = b.habit)
    (hle : w.accepted.size + piece.length ≤ b.limit)
    (hfails : FailsBy b.habit b.fault b.later events (b.limit - w.accepted.size - piece.length)) :
    ({ w with events := events }.take piece).2.Awaits b := by
  have hsize : (w.accepted ++ piece).size = w.accepted.size + piece.length := by
    rw [← Array.length_toList, Array.toList_appendList, List.length_append, Array.length_toList]
  refine ⟨hhabit, ?_, ?_⟩
  · change (w.accepted ++ piece).size ≤ b.limit
    omega
  · change FailsBy b.habit b.fault b.later events (b.limit - (w.accepted ++ piece).size)
    rwa [hsize, ← Nat.sub_sub]

/-- A call either takes something before the breakdown or is the one that goes wrong. -/
theorem Awaits.write (h : w.Awaits b) {octets : Bytes} (hnil : octets ≠ []) :
    (∃ n, (w.write octets).1 = .ok (n + 1) ∧ (w.write octets).2.Awaits b) ∨
      w.accepted.size = b.limit ∧ w.write octets = { w with events := b.later }.fail b.fault := by
  obtain ⟨hhabit, hsize, hfails⟩ := h
  have hpos : 0 < octets.length := List.length_pos_iff.mpr hnil
  unfold Writer.write
  match hevents : w.events with
  | [] =>
    rw [hevents] at hfails
    obtain ⟨hleft, hfault, hlater⟩ := hfails
    have hsame : ({ w with events := b.later } : Writer) = w := by rw [hlater, ← hevents]
    right
    constructor
    · omega
    · rw [hsame, hhabit.trans hfault]
  | .fault g :: events =>
    rw [hevents] at hfails
    obtain ⟨hleft, hfault, hlater⟩ := hfails
    right
    constructor
    · omega
    · simp only [hfault, hlater]
  | .take total piece :: events =>
    rw [hevents] at hfails
    obtain ⟨htotal, hpiece, hle, hmore⟩ := hfails
    have hlen : (octets.take (min total piece)).length = min (min total piece) octets.length :=
      List.length_take
    left
    refine ⟨(octets.take (min total piece)).length - 1, ?_, ?_⟩
    · simp only [Writer.take]
      congr 1
      omega
    · apply Awaits.take hhabit
      · omega
      · split
        next hdone =>
          rwa [show (octets.take (min total piece)).length = total by omega]
        next hleft =>
          refine ⟨by omega, hpiece, by omega, ?_⟩
          rwa [show b.limit - w.accepted.size - (octets.take (min total piece)).length -
            (total - (octets.take (min total piece)).length) =
              b.limit - w.accepted.size - total by omega]

theorem Awaits.drain (h : w.Awaits b) {fuel : Nat} {octets : Bytes}
    (hfuel : octets.length ≤ fuel) :
    Meets b (w.drain fuel octets).1 (w.drain fuel octets).2.2 := by
  induction fuel generalizing w octets with
  | zero =>
    obtain rfl := List.eq_nil_of_length_eq_zero (Nat.le_zero.mp hfuel)
    exact h
  | succ fuel ih =>
    by_cases hnil : octets = []
    · simpa [Writer.drain, hnil, Meets] using h
    · simp only [Writer.drain, if_neg hnil]
      rcases h.write hnil with ⟨n, hanswer, hawaits⟩ | ⟨hsize, hwrite⟩
      · rcases hwrite : w.write octets with ⟨e | m, v⟩
        · simp [hwrite] at hanswer
        · obtain rfl : m = n + 1 := by simpa [hwrite] using hanswer
          rw [hwrite] at hawaits
          apply ih hawaits
          rw [List.length_drop]
          omega
      · have hbroken : ({ w with events := b.later } : Writer).Broken b := ⟨h.habit, hsize, rfl⟩
        rw [hwrite]
        cases hfault : b.fault with
        | refuse e => exact ⟨by rw [hfault]; rfl, hbroken⟩
        | stall => exact ⟨by rw [hfault]; rfl, hbroken⟩

theorem Awaits.writeAll (h : w.Awaits b) (octets : Bytes) :
    Meets b (w.writeAll octets).1 (w.writeAll octets).2.2 := h.drain le_rfl

theorem Wrote.meets {v : Writer} {fault : Option IoError} (hwrote : w.Wrote fault v)
    (hfatal : b.fault.error.isInterrupted = false) (h : w.Awaits b) : Meets b fault v := by
  induction hwrote with
  | all w octets => exact h.writeAll octets
  | andThen _ _ ihfirst ihmore => exact ihmore (ihfirst h)
  | again _ hagain _ ihfirst _ =>
    obtain ⟨rfl, _⟩ := ihfirst h
    rw [hfatal] at hagain
    cases hagain

structure Refuses (w : Writer) : Prop where
  events : ∀ event ∈ w.events, ∃ f, event = .fault f
  habit : ∃ f, w.habit = .fault f

theorem Broken.refuses (h : w.Broken b) (hlasting : b.Lasting) : w.Refuses where
  events := by
    rw [h.events]
    exact hlasting.later
  habit := by
    rw [h.habit]
    exact hlasting.habit

theorem Broken.serves (h : w.Broken b) (hpassing : b.Passing) (count : Nat) : w.Serves count := by
  unfold Serves
  rw [h.habit, h.events]
  exact hpassing count

theorem Refuses.write (h : w.Refuses) (octets : Bytes) :
    ∃ (v : Writer) (f : WriteFault),
      w.write octets = v.fail f ∧ v.Refuses ∧ v.accepted = w.accepted := by
  unfold Writer.write
  match hevents : w.events with
  | [] =>
    obtain ⟨f, hf⟩ := h.habit
    exact ⟨w, f, by rw [hf], h, rfl⟩
  | event :: events =>
    have hfaults := h.events
    rw [hevents] at hfaults
    obtain ⟨f, rfl⟩ := hfaults event (by simp)
    exact ⟨_, f, rfl, ⟨fun other hother => hfaults other (by simp [hother]), h.habit⟩, rfl⟩

theorem Refuses.writeAll (h : w.Refuses) (octets : Bytes) :
    (w.writeAll octets).2.2.Refuses ∧ (w.writeAll octets).2.2.accepted = w.accepted := by
  unfold Writer.writeAll
  cases octets with
  | nil => exact ⟨h, rfl⟩
  | cons first rest =>
    obtain ⟨v, f, hwrite, hrefuses, haccepted⟩ := h.write (first :: rest)
    rw [List.length_cons, Writer.drain, if_neg (List.cons_ne_nil _ _), hwrite]
    cases f with
    | refuse e => exact ⟨hrefuses, haccepted⟩
    | stall => exact ⟨hrefuses, haccepted⟩

theorem Wrote.refused {v : Writer} {fault : Option IoError} (hwrote : w.Wrote fault v)
    (h : w.Refuses) : v.Refuses ∧ v.accepted = w.accepted := by
  have htrans {w v u : Writer} (h : w.Refuses)
      (hfirst : w.Refuses → v.Refuses ∧ v.accepted = w.accepted)
      (hmore : v.Refuses → u.Refuses ∧ u.accepted = v.accepted) :
      u.Refuses ∧ u.accepted = w.accepted := by
    obtain ⟨hrefuses, haccepted⟩ := hfirst h
    obtain ⟨hrefuses', haccepted'⟩ := hmore hrefuses
    exact ⟨hrefuses', haccepted'.trans haccepted⟩
  induction hwrote with
  | all w octets => exact h.writeAll octets
  | andThen _ _ ihfirst ihmore => exact htrans h ihfirst ihmore
  | again _ _ _ ihfirst ihmore => exact htrans h ihfirst ihmore

end GzipStage.Transfer.Writer
