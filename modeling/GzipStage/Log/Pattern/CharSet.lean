/-! Sets of characters. -/
namespace GzipStage.Log.Pattern

/-- A set of characters.  `folded` tells that it is known to hold with each letter that letter in
the other case. -/
structure CharSet where
  ranges : List (Nat × Nat)
  folded : Bool
  deriving DecidableEq

namespace CharSet

def empty : CharSet := ⟨[], true⟩

def lastChar : Nat := 0x10ffff

def lastOctet : Nat := 0xff

def insertRange (least greatest : Nat) : List (Nat × Nat) → List (Nat × Nat)
  | [] => [(least, greatest)]
  | (a, b) :: rest =>
    if greatest + 1 < a then (least, greatest) :: (a, b) :: rest
    else if b + 1 < least then (a, b) :: insertRange least greatest rest
    else insertRange (min least a) (max greatest b) rest

def has (ranges : List (Nat × Nat)) (n : Nat) : Bool := ranges.any fun r => r.1 ≤ n && n ≤ r.2

def contains (s : CharSet) (c : Char) : Bool := has s.ranges c.toNat

def insert (s : CharSet) (least greatest : Nat) : CharSet :=
  ⟨insertRange least greatest s.ranges, false⟩

def unite (s t : List (Nat × Nat)) : List (Nat × Nat) :=
  t.foldl (fun s r => insertRange r.1 r.2 s) s

def union (s t : CharSet) : CharSet :=
  if t.ranges = [] || s.ranges = t.ranges then s
  else ⟨unite s.ranges t.ranges, s.folded && t.folded⟩

def meet (s t : List (Nat × Nat)) : List (Nat × Nat) :=
  s.flatMap fun a => t.filterMap fun b =>
    let r := (max a.1 b.1, min a.2 b.2)
    if r.1 ≤ r.2 then some r else none

/-- The numbers from `first` to `last` that are in none of the ranges. -/
def gaps (last : Nat) : (first : Nat) → List (Nat × Nat) → List (Nat × Nat)
  | first, [] => if first ≤ last then [(first, last)] else []
  | first, (a, b) :: rest => (if first < a then [(first, a - 1)] else []) ++ gaps last (b + 1) rest

def trimmed (r : Nat × Nat) : Nat × Nat :=
  (if 0xd800 ≤ r.1 && r.1 ≤ 0xdfff then 0xe000 else r.1,
    if 0xd800 ≤ r.2 && r.2 ≤ 0xdfff then 0xd7ff else r.2)

def outside (last : Nat) (ranges : List (Nat × Nat)) : List (Nat × Nat) :=
  ((gaps last 0 ranges).map trimmed).filter fun r => r.1 ≤ r.2

/-- The characters with numbers up to `last` that are not in a set. -/
def complement (s : CharSet) (last : Nat) : CharSet :=
  if s.ranges = [] then ⟨[(0, last)], true⟩ else ⟨outside last s.ranges, s.folded⟩

def inter (s t : CharSet) : CharSet :=
  if s.ranges = [] then s
  else if t.ranges = [] then empty
  else ⟨meet s.ranges t.ranges, s.folded && t.folded⟩

def diff (s t : CharSet) : CharSet :=
  if s.ranges = [] || t.ranges = [] then s
  else ⟨meet s.ranges (outside lastChar t.ranges), s.folded && t.folded⟩

def symmDiff (s t : CharSet) : CharSet := (s.union t).diff (s.inter t)

def otherCase (ranges : List (Nat × Nat)) : List (Nat × Nat) :=
  (meet ranges [(0x61, 0x7a)]).map (fun r => (r.1 - 0x20, r.2 - 0x20)) ++
    (meet ranges [(0x41, 0x5a)]).map fun r => (r.1 + 0x20, r.2 + 0x20)

def foldCase (s : CharSet) : CharSet := ⟨unite s.ranges (otherCase s.ranges), true⟩

def isAscii (s : CharSet) : Bool := s.ranges.all fun r => r.2 < 0x80

def one (c : Char) : CharSet := ⟨[(c.toNat, c.toNat)], false⟩

def only? (s : CharSet) : Option Char :=
  match s.ranges with
  | [(a, b)] => if a = b && a.isValidChar then some (Char.ofNat a) else none
  | _ => none

end CharSet

end GzipStage.Log.Pattern
