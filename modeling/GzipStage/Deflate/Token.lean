import GzipStage.Octet

/-! Text as literals and copies. -/
namespace GzipStage.Deflate

/-- A literal octet, or `length` octets from `distance` octets ago. -/
inductive Token where
  | literal (b : UInt8)
  | copy (length distance : Nat)
  deriving DecidableEq

def minLength : Nat := 3

def maxLength : Nat := 258

def maxDistance : Nat := 32768

def copyOnto (distance : Nat) : (length : Nat) → Array UInt8 → Array UInt8
  | 0, out => out
  | length + 1, out => copyOnto distance length (out.push (out.getD (out.size - distance) 0))

/-- Appends what a token stands for.  A copy must not reach back beyond the beginning. -/
def Token.appendTo (out : Array UInt8) : Token → Option (Array UInt8)
  | .literal b => some (out.push b)
  | .copy length distance =>
    if 0 < distance && distance ≤ out.size then some (copyOnto distance length out) else none

def appendTokens (out : Array UInt8) (tokens : List Token) : Option (Array UInt8) :=
  tokens.foldlM Token.appendTo out

end GzipStage.Deflate
