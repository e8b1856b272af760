import GzipStage.Deflate.Bits

/-! Codes given by the lengths of their words. -/
namespace GzipStage.Deflate.Huffman

/-- A code as a tree: `zero` and `one` say what a bit leads to. -/
inductive Tree where
  | empty
  | leaf (symbol : Nat)
  | node (zero one : Tree)
  deriving DecidableEq

namespace Tree

def insert (symbol : Nat) : Bits → Tree → Option Tree
  | [], .empty => some (.leaf symbol)
  | false :: bits, .empty => do return .node (← insert symbol bits .empty) .empty
  | true :: bits, .empty => do return .node .empty (← insert symbol bits .empty)
  | false :: bits, .node zero one => do return .node (← insert symbol bits zero) one
  | true :: bits, .node zero one => do return .node zero (← insert symbol bits one)
  | _, _ => none

/-- The symbol of the word that bits begin with, and the bits left. -/
def decode : Tree → Bits → Option (Nat × Bits)
  | .leaf symbol, bits => some (symbol, bits)
  | .node zero _, false :: bits => zero.decode bits
  | .node _ one, true :: bits => one.decode bits
  | _, _ => none

end Tree

def symbolsOf (lengths : List Nat) (length : Nat) : List Nat :=
  (lengths.zipIdx.filter (·.1 = length)).map (·.2)

def wordsFrom (length : Nat) : (next : Nat) → List Nat → List (Nat × Bits)
  | _, [] => []
  | next, symbol :: symbols =>
    (symbol, (bitsOf length next).reverse) :: wordsFrom length (next + 1) symbols

/-- The words of the `count` lengths from `length` on, the first of them being `next`. -/
def wordsOf (lengths : List Nat) : (count : Nat) → (length next : Nat) → List (Nat × Bits)
  | 0, _, _ => []
  | count + 1, length, next =>
    let symbols := symbolsOf lengths length
    wordsFrom length next symbols ++
      wordsOf lengths count (length + 1) ((next + symbols.length) * 2)

def maxLength : Nat := 15

/-- The tree of the code with the given word lengths, a length of zero meaning that there is no
such word.  The lengths must leave no gap, unless there is at most one word, and no word may be
without a place. -/
def ofLengths (lengths : List Nat) : Option Tree :=
  let used := (lengths.filter (· ≠ 0)).length
  let total := lengths.foldl (fun n l => if l = 0 then n else n + Nat.pow 2 (maxLength - l)) 0
  if total = Nat.pow 2 maxLength || used ≤ 1 then
    (wordsOf lengths maxLength 1 0).foldlM (fun tree word => tree.insert word.1 word.2) .empty
  else none

end GzipStage.Deflate.Huffman
