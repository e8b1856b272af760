import GzipStage.Deflate.Token

/-! Looking for copies. -/
namespace GzipStage.Deflate

def hashCount : Nat := 32768

def maxProbes : Nat := 128

/-- Linked positions.  `latest` holds the latest position of each hash, `earlier` the position
before each position.  Zero ends a chain, so the very first octet is never copied from. -/
structure Chains where
  latest : Array Nat
  earlier : Array Nat

def Chains.empty : Chains := ⟨Array.replicate hashCount 0, #[]⟩

def hashAt (data : Array UInt8) (i : Nat) : Nat :=
  ((data.getD i 0).toNat * 1024 + (data.getD (i + 1) 0).toNat * 32 +
    (data.getD (i + 2) 0).toNat) % hashCount

/-- Links the position `i`, which is the next one, unless fewer than three octets stand there. -/
def Chains.push (c : Chains) (data : Array UInt8) (i : Nat) : Chains :=
  if i + minLength ≤ data.size then
    let h := hashAt data i
    let before := c.latest.getD h 0
    ⟨c.latest.setIfInBounds h i, c.earlier.push before⟩
  else ⟨c.latest, c.earlier.push 0⟩

def Chains.pushMany (data : Array UInt8) : (count : Nat) → (i : Nat) → Chains → Chains
  | 0, _, c => c
  | count + 1, i, c => pushMany data count (i + 1) (c.push data i)

/-- The number of octets, at most `limit`, that are the same at `j` as at `i`. -/
def commonLength (data : Array UInt8) : (limit : Nat) → (j i : Nat) → Nat
  | 0, _, _ => 0
  | limit + 1, j, i =>
    if data.getD j 0 = data.getD i 0 then commonLength data limit (j + 1) (i + 1) + 1 else 0

/-- A copy that could stand at a position; length zero means that there is none. -/
structure Match where
  length : Nat
  distance : Nat
  deriving DecidableEq

def Match.none : Match := ⟨0, 0⟩

/-- Follows the links from `j` and keeps the longest copy for `i`, the nearest among equals. -/
def follow (data : Array UInt8) (earlier : Array Nat) (i limit : Nat) :
    (probes : Nat) → (j : Nat) → Match → Match
  | 0, _, best => best
  | probes + 1, j, best =>
    if 0 < j && j < i && i - j ≤ maxDistance then
      let length := commonLength data limit j i
      let best := if best.length < length then ⟨length, i - j⟩ else best
      if limit ≤ best.length then best
      else follow data earlier i limit probes (earlier.getD j 0) best
    else best

def Chains.find (c : Chains) (data : Array UInt8) (i : Nat) : Match :=
  if i + minLength ≤ data.size then
    let m := follow data c.earlier i (min maxLength (data.size - i)) maxProbes
      (c.latest.getD (hashAt data i) 0) .none
    if minLength ≤ m.length then m else .none
  else .none

/-- Writes the octets from `i` to the end of `data` as tokens, latest first.  `here` is the copy
found for `i`.  A copy gives way to a longer one at the next position.  `fuel` is enough when it
is at least the number of octets. -/
def tokensOnto (data : Array UInt8) : (fuel : Nat) → (i : Nat) → (here : Match) →
    Chains → List Token → List Token × Chains
  | 0, _, _, c, acc => (acc, c)
  | fuel + 1, i, here, c, acc =>
    if data.size ≤ i then (acc, c)
    else
      let c := c.push data i
      let next := c.find data (i + 1)
      if here.length = 0 || here.length < next.length then
        tokensOnto data fuel (i + 1) next c (.literal (data.getD i 0) :: acc)
      else
        let c := c.pushMany data (here.length - 1) (i + 1)
        let i := i + here.length
        tokensOnto data fuel i (c.find data i) c (.copy here.length here.distance :: acc)

/-- The tokens for the octets from `start` to the end of `data`, with the links of all positions
before them, and the links of all positions. -/
def tokensFrom (data : Array UInt8) (start : Nat) (c : Chains) : List Token × Chains :=
  let (acc, c) := tokensOnto data (data.size - start) start (c.find data start) c []
  (acc.reverse, c)

end GzipStage.Deflate
