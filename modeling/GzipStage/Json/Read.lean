import GzipStage.Json.Sequence
import GzipStage.Json.NumberLiteral

/-! Readers of values. -/
namespace GzipStage.Json

def deeper {α : Type} (s : Bytes) (levels : Nat) (read : Nat → Except Fault α) :
    Except Fault α :=
  match levels with
  | 0 => .error (.at .recursionLimit s)
  | n + 1 => read n

def mismatch (expected : String) (s : Bytes) : Fault :=
  let found (f : Found) (rest : Bytes) : Fault := .before (.invalidType f expected) rest
  let word (f : Found) (rest : Bytes) (text : Bytes) : Fault :=
    match readWord text rest with
    | .ok rest => found f rest
    | .error fault => fault
  let number (negative : Bool) (rest : Bytes) : Fault :=
    match NumberLiteral.read negative rest with
    | .ok (.integer n, rest) => found (.integer n) rest
    | .ok (.float x, rest) => found (.float x) rest
    | .error fault => fault
  match s with
  | [] => .at .expectedValue []
  | b :: s =>
    if b = 0x6e then word .null s restOfNull
    else if b = 0x74 then word (.bool true) s restOfTrue
    else if b = 0x66 then word (.bool false) s restOfFalse
    else if b = Octet.minus then number true s
    else if Octet.isDigit b then number false (b :: s)
    else if b = Octet.quote then
      match StringLiteral.read s with
      | .ok (text, rest) => found (.string text) rest
      | .error fault => fault
    else if b = Octet.openBracket then found .sequence (b :: s)
    else if b = Octet.openBrace then found .map (b :: s)
    else .at .expectedValue (b :: s)

def string : Reader String := fun _ s =>
  match skipBlanks s with
  | [] => .error (.at .endInValue [])
  | b :: s =>
    if b = Octet.quote then StringLiteral.read s else .error (mismatch "a string" (b :: s))

/-- Reads a value that is neither a list nor an object and begins with `b`. -/
def scalar (b : UInt8) (s : Bytes) : Except Fault (Value × Bytes) :=
  if b = 0x6e then do return (.null, ← readWord restOfNull s)
  else if b = 0x74 then do return (.bool true, ← readWord restOfTrue s)
  else if b = 0x66 then do return (.bool false, ← readWord restOfFalse s)
  else if b = Octet.minus then do
    let (n, s) ← NumberLiteral.read true s
    return (.number n, s)
  else if Octet.isDigit b then do
    let (n, s) ← NumberLiteral.read false (b :: s)
    return (.number n, s)
  else if b = Octet.quote then do
    let (text, s) ← StringLiteral.read s
    return (.string text, s)
  else .error (.at .expectedValue (b :: s))

/-- Reads the members of an object, a later member of a name replacing an earlier one. -/
def memberMap (read : Bytes → Except Fault (Value × Bytes)) (s : Bytes) :
    Except Fault (Members × Bytes) := do
  let (ms, s) ← members
    (fun name ms s => do
      let s ← readColon s
      let (v, s) ← read s
      .ok (Members.insert name v ms, s))
    (s.length + 1) true [] s
  return (ms, ← closeObject s)

def value : Reader Value
  | levels, s =>
    match skipBlanks s with
    | [] => .error (.at .endInValue [])
    | b :: s =>
      if b = Octet.openBracket then
        match levels with
        | 0 => .error (.at .recursionLimit (b :: s))
        | levels + 1 => do
          let (xs, s) ← items (value levels) (s.length + 1) [] s
          return (.array xs.reverse, ← closeList s)
      else if b = Octet.openBrace then
        match levels with
        | 0 => .error (.at .recursionLimit (b :: s))
        | levels + 1 => do
          let (ms, s) ← memberMap (value levels) s
          return (.object ms, s)
      else scalar b s

def map : Reader Members := fun levels s =>
  match skipBlanks s with
  | [] => .error (.at .endInValue [])
  | b :: s =>
    if b = Octet.openBrace then deeper (b :: s) levels fun levels => memberMap (value levels) s
    else .error (mismatch "a map" (b :: s))

def maxLevels : Nat := 127

def document {α : Type} (read : Reader α) (s : Bytes) : Except Error α :=
  let result : Except Fault α := do
    let (x, rest) ← read maxLevels s
    match skipBlanks rest with
    | [] => .ok x
    | b :: rest => .error (.at .trailingCharacters (b :: rest))
  result.mapError (Error.ofFault s)

end GzipStage.Json
