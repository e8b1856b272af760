import GzipStage.Log.Pattern.Expr

/-! The places at which a match can end that begins at one of some places. -/
namespace GzipStage.Log.Pattern

def mergePlaces : List Nat → List Nat → List Nat
  | [], t => t
  | i :: s, t => insertPlaces i s t
where
  /-- Merges `i :: s` with a list. -/
  insertPlaces (i : Nat) (s : List Nat) : List Nat → List Nat
    | [] => i :: s
    | j :: t =>
      if j < i then j :: insertPlaces i s t
      else if i = j then i :: mergePlaces s t
      else i :: mergePlaces s (j :: t)

def exactly (move : List Nat → List Nat) : (n : Nat) → List Nat → List Nat
  | 0, s => s
  | n + 1, s =>
    let t := move s
    if t = s then s else exactly move n t

def atMost (move : List Nat → List Nat) : (n : Nat) → List Nat → List Nat
  | 0, s => s
  | n + 1, s =>
    let t := mergePlaces s (move s)
    if t = s then s else atMost move n t

/-- The places at which matches end that begin at one of the given places.  A repetition that
goes on longer than the text stays at a place, and can do so as often as it likes; hence no more
repetitions count than the text has places. -/
def Expr.reach (text : Array Char) : Expr → List Nat → List Nat
  | .empty, s => s
  | .chars set, s =>
    s.filterMap fun i =>
      match text[i]? with
      | some c => if set.contains c then some (i + 1) else none
      | none => none
  | .look l, s =>
    s.filter fun i => l.holds (if i = 0 then none else text[i - 1]?) text[i]?
  | .seq a b, s => b.reach text (a.reach text s)
  | .either a b, s => mergePlaces (a.reach text s) (b.reach text s)
  | .capture e, s => e.reach text s
  | .times e least most, s =>
    let limit := text.size + 1
    let s := exactly (e.reach text) (min least limit) s
    atMost (e.reach text) (min (most.elim limit (· - least)) limit) s

def Expr.matchesPart (e : Expr) (text : String) : Bool :=
  let cs := text.toList.toArray
  e.reach cs (List.range (cs.size + 1)) ≠ []

end GzipStage.Log.Pattern
