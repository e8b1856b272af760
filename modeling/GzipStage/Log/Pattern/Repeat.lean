import GzipStage.Log.Pattern.Cursor
import GzipStage.Log.Pattern.Node

namespace GzipStage.Log.Pattern.Repeat

open Reading

def countLimit : Nat := 4294967296

/-- Reads a number with white space around it.  A number that is missing or too large is not a
fault yet, since what comes after it may be wrong in another way. -/
def decimal : Reading (Except Fault Nat) := do
  let _ ← collect isSpace Cursor.next
  let start ← place
  let digits ← collect Char.isDigit Cursor.advance
  let span : Span := ⟨start, ← place⟩
  let _ ← collect isSpace Cursor.advance
  let n := digits.foldl (fun n c => n * 10 + (c.toNat - 0x30)) 0
  if digits = [] then return .error ⟨.countMissing, span, none⟩
  else if countLimit ≤ n then return .error ⟨.decimalInvalid, span, none⟩
  else return .ok n

/-- Reads the limits of a repetition at the opening brace: the least number and the greatest, if
there is one. -/
def limits : Reading (Nat × Option Nat) := do
  let start ← place
  let orEnd : Reading Unit := do
    if (← peek?).isNone then refuse .countUnclosed ⟨start, ← place⟩
  advance
  orEnd
  let least ← decimal
  orEnd
  if (← peek?) = some ',' then
    advance
    orEnd
    if (← peek?) = some '\x7d' then return (← least, none)
    else
      let least ← least
      let most ← decimal
      return (least, some (← most))
  else
    let n ← least
    return (n, some n)

def lazy : Reading Unit := do
  if (← peek?) = some '?' then pass

/-- The piece that is repeated and those before it.  Nothing and flags cannot be repeated. -/
def operand (done : List Node) : Reading (Node × List Node) := do
  match done with
  | [] | .empty _ :: _ | .flags _ _ :: _ => refuse .repetitionMissing (← here)
  | node :: before => return (node, before)

def sign (least : Nat) (most : Option Nat) (done : List Node) : Reading (List Node) := do
  let (node, before) ← operand done
  pass
  lazy
  return .repetition ⟨node.span.start, ← place⟩ least most node :: before

def counted (done : List Node) : Reading (List Node) := do
  let start ← place
  let (node, before) ← operand done
  let (least, most) ← limits
  if (← peek?) ≠ some '\x7d' then refuse .countUnclosed ⟨start, ← place⟩
  advance
  lazy
  if most.any (· < least) then refuse .countRange ⟨start, ← place⟩
  return .repetition ⟨node.span.start, ← place⟩ least most node :: before

end GzipStage.Log.Pattern.Repeat
