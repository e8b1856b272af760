import GzipStage.Log.Pattern.Expr
import GzipStage.Text.Utf8

/-! The room that the automata for a pattern take, one for each direction of reading. -/
namespace GzipStage.Log.Pattern

def roomLimit : Nat := 10485760

def stateRoom : Nat := 32

def octetBranch : Nat := 8

def freeBranch : Nat := 4

abbrev OctetRange := UInt8 × UInt8

namespace CharSet

/-- Where a range of numbers has to be cut so that the first part is nearer to having, at each
place of its encoding, all octets of one range: the last number of the first part. -/
def cut? (least greatest : Nat) : Option Nat :=
  let width := [0x7f, 0x7ff, 0xffff].find? fun m => least ≤ m && m < greatest
  let tail :=
    if greatest < 0x80 then none
    else [0x40, 0x1000, 0x40000].findSome? fun m =>
      if least / m = greatest / m then none
      else if least % m ≠ 0 then some (least - least % m + (m - 1))
      else if greatest % m ≠ m - 1 then some (greatest - greatest % m - 1)
      else none
  width.or tail

/-- The encodings of a range of numbers, as octet ranges for each place.  A range is cut a few
times for each length of the encoding, so `fuel` need not be large. -/
def encodings : (fuel : Nat) → (least greatest : Nat) → List (List OctetRange)
  | 0, _, _ => []
  | fuel + 1, least, greatest =>
    match cut? least greatest with
    | some m => encodings fuel least m ++ encodings fuel (m + 1) greatest
    | none => [(Utf8.encodeChar (Char.ofNat least)).zip (Utf8.encodeChar (Char.ofNat greatest))]

def allEncodings (s : CharSet) : List (List OctetRange) :=
  (meet s.ranges [(0, 0xd7ff), (0xe000, 0x10ffff)]).flatMap fun r => encodings 32 r.1 r.2

/-- The states for reading encodings forwards, as what is left to be read in each.  No encoding
is longer than four octets. -/
def stations : (fuel : Nat) → List (List OctetRange) → List (List (List OctetRange))
  | 0, _ => []
  | fuel + 1, rest =>
    if rest.all (· = []) then []
    else
      let heads := (rest.filterMap List.head?).eraseDups
      rest :: heads.flatMap fun h =>
        stations fuel (rest.filterMap fun e => if e.head? = some h then some (e.drop 1) else none)

def room (backward : Bool) (s : CharSet) : Nat :=
  match s.only? with
  | some c => (Utf8.encodeChar c).length * stateRoom
  | none =>
    if s.isAscii then 2 * stateRoom + s.ranges.length * octetBranch
    else
      let all := s.allEncodings
      if backward then
        let fronts :=
          (all.flatMap fun e => (List.range e.length).map fun n => e.take (n + 1)).eraseDups
        (fronts.length + 2) * stateRoom + all.length * freeBranch
      else
        (stations 5 all).eraseDups.foldl (fun room rest =>
          room + stateRoom + (rest.filterMap List.head?).eraseDups.length * octetBranch) stateRoom

end CharSet

namespace Expr

def fork : Nat := stateRoom + 2 * freeBranch

def timesRoom (body least : Nat) (most : Option Nat) (takesSomething : Bool) : Nat :=
  match least, most with
  | 0, none => if takesSomething then fork + body else 2 * fork + stateRoom + body
  | least, none => least * body + fork
  | 0, some 1 => fork + stateRoom + body
  | least, some most =>
    if least = most then if least = 0 then stateRoom else least * body
    else
      (if least = 0 then stateRoom else least * body) + stateRoom + (most - least) * (fork + body)

/-- The room of an expression, and its room as one of several alternatives. -/
def rooms (backward : Bool) : Expr → Nat × Nat
  | empty => (stateRoom, stateRoom + freeBranch)
  | chars s =>
    let r := s.room backward
    (r, r + freeBranch)
  | look _ => (stateRoom, stateRoom + freeBranch)
  | seq a b =>
    let r := (a.rooms backward).1 + (b.rooms backward).1
    (r, r + freeBranch)
  | either a b =>
    let r := (a.rooms backward).2 + (b.rooms backward).2
    (2 * stateRoom + r, r)
  | capture e =>
    let r := (e.rooms backward).1 + (if backward then 0 else 2 * stateRoom)
    (r, r + freeBranch)
  | times e least most =>
    let r := timesRoom (e.rooms backward).1 least most e.takesSomething
    (r, r + freeBranch)

def room (backward : Bool) (e : Expr) : Nat :=
  fork + 2 * stateRoom + octetBranch + stateRoom + (e.rooms backward).1 +
    (if backward then 0 else 2 * stateRoom)

def isTooLarge (backward : Bool) (e : Expr) : Bool := roomLimit < e.room backward

end Expr

end GzipStage.Log.Pattern
