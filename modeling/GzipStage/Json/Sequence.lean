import GzipStage.Json.StringLiteral

/-! The frames of lists and objects: commas, names, colons and closing brackets. -/
namespace GzipStage.Json

/-- The octets left in front of the next item of a list, or `none` in front of the closing
bracket.  Items other than the first follow a comma. -/
def nextItem? (first : Bool) (s : Bytes) : Except Fault (Option Bytes) :=
  match skipBlanks s with
  | [] => .error (.at .endInList [])
  | b :: s =>
    if b = Octet.closeBracket then .ok none
    else if first then .ok (some (b :: s))
    else if b = Octet.comma then
      match skipBlanks s with
      | [] => .error (.at .endInValue [])
      | b :: s =>
        if b = Octet.closeBracket then .error (.at .trailingComma (b :: s))
        else .ok (some (b :: s))
    else .error (.at .expectedListCommaOrEnd (b :: s))

def closeList (s : Bytes) : Except Fault Bytes :=
  match skipBlanks s with
  | [] => .error (.at .endInList [])
  | b :: s =>
    if b = Octet.closeBracket then .ok s
    else if b = Octet.comma then
      match skipBlanks s with
      | [] => .error (.at .trailingCharacters [])
      | b :: s =>
        .error (.at (if b = Octet.closeBracket then .trailingComma else .trailingCharacters)
          (b :: s))
    else .error (.at .trailingCharacters (b :: s))

/-- The name of the next member of an object and the octets left after it, or `none` in front
of the closing bracket.  Members other than the first follow a comma. -/
def nextName? (first : Bool) (s : Bytes) : Except Fault (Option (String × Bytes)) :=
  match skipBlanks s with
  | [] => .error (.at .endInObject [])
  | b :: s =>
    if b = Octet.closeBrace then .ok none
    else if first then name b s
    else if b = Octet.comma then
      match skipBlanks s with
      | [] => .error (.at .endInValue [])
      | b :: s =>
        if b = Octet.closeBrace then .error (.at .trailingComma (b :: s)) else name b s
    else .error (.at .expectedObjectCommaOrEnd (b :: s))
where
  /-- Reads the name that begins with `b`. -/
  name (b : UInt8) (s : Bytes) : Except Fault (Option (String × Bytes)) :=
    if b = Octet.quote then do
      let (text, s) ← StringLiteral.read s
      .ok (some (text, s))
    else .error (.at .keyMustBeString (b :: s))

def readColon (s : Bytes) : Except Fault Bytes :=
  match skipBlanks s with
  | [] => .error (.at .endInObject [])
  | b :: s => if b = Octet.colon then .ok s else .error (.at .expectedColon (b :: s))

def closeObject (s : Bytes) : Except Fault Bytes :=
  match skipBlanks s with
  | [] => .error (.at .endInObject [])
  | b :: s =>
    if b = Octet.closeBrace then .ok s
    else .error (.at (if b = Octet.comma then .trailingComma else .trailingCharacters) (b :: s))

/-- What reads a value of type `α` from a document.  It is told how many more lists and objects
may be opened inside one another. -/
abbrev Reader (α : Type) := (levels : Nat) → Bytes → Except Fault (α × Bytes)

/-- The items of a list after its opening bracket, latest first, and the octets left in front of
the closing bracket.  Every item reads an octet, so `fuel` is enough when it exceeds the number
of octets. -/
def items {α : Type} (read : Bytes → Except Fault (α × Bytes)) :
    Nat → List α → Bytes → Except Fault (List α × Bytes)
  | 0, _, _ => .error (.at .endInList [])
  | fuel + 1, acc, s => do
    match ← nextItem? acc.isEmpty s with
    | none => .ok (acc, s)
    | some s =>
      let (x, s) ← read s
      items read fuel (x :: acc) s

/-- Passes the members of an object after its opening bracket to `read`, each with its name,
and gives the octets left in front of the closing bracket. -/
def members {σ : Type} (read : String → σ → Bytes → Except Fault (σ × Bytes)) :
    Nat → Bool → σ → Bytes → Except Fault (σ × Bytes)
  | 0, _, _, _ => .error (.at .endInObject [])
  | fuel + 1, first, state, s => do
    match ← nextName? first s with
    | none => .ok (state, s)
    | some (name, s) =>
      let (state, s) ← read name state s
      members read fuel false state s

end GzipStage.Json
