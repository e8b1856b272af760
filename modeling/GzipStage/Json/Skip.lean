import GzipStage.Json.NumberLiteral
import GzipStage.Json.StringLiteral

/-! Passing over a value, which is checked against the grammar only: strings need not be UTF-8,
numbers have no range, and brackets nest without a limit. -/
namespace GzipStage.Json.Skip

/-- Where the reader of an unwanted string stands between two octets. -/
inductive State where
  | plain
  | escape
  /-- After `\u` and some digits: how many are to come, and whether all were digits. -/
  | digits (owed : Nat) (valid : Bool)
  deriving DecidableEq

def string (state : State) : Bytes → Except Fault Bytes
  | [] => .error (.at .endInString [])
  | b :: s =>
    match state with
    | .plain =>
      if b = Octet.quote then .ok s
      else if b = Octet.backslash then string .escape s
      else if b < 0x20 then .error (.before .controlCharacter (b :: s))
      else string .plain s
    | .escape =>
      if b = 0x75 then string (.digits 4 true) s
      else if (StringLiteral.simpleEscape? b).isSome then string .plain s
      else .error (.before .invalidEscape s)
    | .digits owed valid =>
      let valid := valid && (Octet.hexValue? b).isSome
      if 1 < owed then string (.digits (owed - 1) valid) s
      else if valid then string .plain s
      else .error (.before .invalidEscape s)

open NumberLiteral

def exponent (s : Bytes) : Except Fault Bytes :=
  match (exponentSign s).2 with
  | [] => .error (.before .invalidNumber [])
  | b :: s => if Octet.isDigit b then .ok (dropDigits s) else .error (.before .invalidNumber s)

/-- The octets left after a fraction and an exponent, each of which may be missing. -/
def afterInteger (s : Bytes) : Except Fault Bytes :=
  if s.head? = some Octet.dot then
    let s := s.drop 1
    if !digitNext s then .error (.at .invalidNumber s)
    else
      let s := dropDigits s
      if exponentNext s then exponent (s.drop 1) else .ok s
  else if exponentNext s then exponent (s.drop 1)
  else .ok s

def number : Bytes → Except Fault Bytes
  | [] => .error (.before .invalidNumber [])
  | b :: s =>
    if b = Octet.zero then
      if digitNext s then .error (.at .invalidNumber s) else afterInteger s
    else if Octet.isDigit b then afterInteger (dropDigits s)
    else .error (.before .invalidNumber s)

/-- The octets left after a value that is neither a list nor an object and begins with `b`. -/
def scalar (b : UInt8) (s : Bytes) : Except Fault Bytes :=
  if b = 0x6e then readWord restOfNull s
  else if b = 0x74 then readWord restOfTrue s
  else if b = 0x66 then readWord restOfFalse s
  else if b = Octet.minus then number s
  else if Octet.isDigit b then number (b :: s)
  else if b = Octet.quote then string .plain s
  else .error (.at .expectedValue (b :: s))

inductive Bracket where
  | list
  | object
  deriving DecidableEq

def Bracket.close : Bracket → UInt8
  | .list => Octet.closeBracket
  | .object => Octet.closeBrace

def Bracket.unclosed : Bracket → Cause
  | .list => .endInList
  | .object => .endInObject

/-- The reason when an item is followed by neither a comma nor the closing octet. -/
def Bracket.unseparated : Bracket → Cause
  | .list => .expectedListCommaOrEnd
  | .object => .expectedObjectCommaOrEnd

/-- The octets left where the value of an item is to begin: after the name and the colon in an
object. -/
def item (bracket : Bracket) (s : Bytes) : Except Fault Bytes :=
  match bracket with
  | .list => .ok s
  | .object =>
    match skipBlanks s with
    | [] => .error (.at .endInObject [])
    | b :: s =>
      if b = Octet.quote then do
        let s ← string .plain s
        match skipBlanks s with
        | [] => .error (.at .endInObject [])
        | b :: s => if b = Octet.colon then .ok s else .error (.at .expectedColon (b :: s))
      else .error (.at .keyMustBeString (b :: s))

inductive Place where
  /-- A value is to begin. -/
  | value
  /-- A value has ended. -/
  | ended
  deriving DecidableEq

/-- Enters a bracket from after its opening octet: an empty one is a value that has ended. -/
def enter (bracket : Bracket) (stack : List Bracket) (s : Bytes) :
    Except Fault (Place × List Bracket × Bytes) :=
  match skipBlanks s with
  | [] => .error (.at bracket.unclosed [])
  | b :: s =>
    if b = bracket.close then .ok (.ended, stack, s)
    else do
      let s ← item bracket (b :: s)
      .ok (.value, bracket :: stack, s)

def begin (stack : List Bracket) (s : Bytes) : Except Fault (Place × List Bracket × Bytes) :=
  match skipBlanks s with
  | [] => .error (.at .endInValue [])
  | b :: s =>
    if b = Octet.openBracket then enter .list stack s
    else if b = Octet.openBrace then enter .object stack s
    else do
      let s ← scalar b s
      .ok (.ended, stack, s)

def next (bracket : Bracket) (stack : List Bracket) (s : Bytes) :
    Except Fault (Place × List Bracket × Bytes) :=
  match skipBlanks s with
  | [] => .error (.at bracket.unclosed [])
  | b :: s =>
    if b = Octet.comma then do
      let s ← item bracket s
      .ok (.value, bracket :: stack, s)
    else if b = bracket.close then .ok (.ended, stack, s)
    else .error (.at bracket.unseparated (b :: s))

/-- Walks until the outermost value has ended.  Every step reads an octet, so `fuel` is enough
when it exceeds the number of octets. -/
def walk : Nat → Place → List Bracket → Bytes → Except Fault Bytes
  | 0, _, _, _ => .error (.at .endInValue [])
  | fuel + 1, .value, stack, s => do
    let (place, stack, s) ← begin stack s
    walk fuel place stack s
  | _ + 1, .ended, [], s => .ok s
  | fuel + 1, .ended, bracket :: stack, s => do
    let (place, stack, s) ← next bracket stack s
    walk fuel place stack s

def value (s : Bytes) : Except Fault Bytes := walk (s.length + 1) .value [] s

end GzipStage.Json.Skip
