import GzipStage.Decimal.Scale
import GzipStage.Json.Blank
import GzipStage.Json.Value

/-! Number literals, from after the sign. -/
namespace GzipStage.Json.NumberLiteral

def wordLimit : Nat := 18446744073709551616

def leastSize : Nat := 9223372036854775808

def exponentLimit : Nat := 2147483648

def digitNext : Bytes → Bool
  | [] => false
  | b :: _ => Octet.isDigit b

/-- Appends decimal digits to the number `n` while it stays below `limit`.  Also gives how many
were read. -/
def takeDigits (limit n count : Nat) : Bytes → Nat × Nat × Bytes
  | [] => (n, count, [])
  | b :: s =>
    let m := n * 10 + Octet.digitValue b
    if Octet.isDigit b && m < limit then takeDigits limit m (count + 1) s
    else (n, count, b :: s)

def dropDigits (s : Bytes) : Bytes := s.dropWhile Octet.isDigit

def countDigits (s : Bytes) : Nat := (s.takeWhile Octet.isDigit).length

def exponentNext : Bytes → Bool
  | [] => false
  | b :: _ => b = 0x65 || b = 0x45

def float (negative : Bool) (significand : Nat) (e : Int) (s : Bytes) :
    Except Fault (Number × Bytes) :=
  match Decimal.toFloat? significand e with
  | some f => .ok (.float (if negative then -f else f), s)
  | none => .error (.before .numberOutOfRange s)

/-- The sign of an exponent: whether it is negative, and the octets left. -/
def exponentSign : Bytes → Bool × Bytes
  | [] => (false, [])
  | b :: s =>
    if b = Octet.plus then (false, s) else if b = Octet.minus then (true, s) else (false, b :: s)

/-- Reads an exponent after its letter.  One that reaches `exponentLimit` is out of range or makes
the number zero. -/
def exponent (negative : Bool) (significand : Nat) (e : Int) (s : Bytes) :
    Except Fault (Number × Bytes) :=
  let (down, s) := exponentSign s
  match s with
  | [] => .error (.at .endInValue [])
  | b :: s =>
    if Octet.isDigit b then
      let (n, _, rest) := takeDigits exponentLimit (Octet.digitValue b) 0 s
      if digitNext rest then
        if significand ≠ 0 && !down then .error (.before .numberOutOfRange (rest.drop 1))
        else .ok (.float (if negative then -0.0 else 0.0), dropDigits rest)
      else float negative significand (if down then e - n else e + n) rest
    else .error (.before .invalidNumber s)

def fraction (negative : Bool) (significand : Nat) (e : Int) (s : Bytes) :
    Except Fault (Number × Bytes) :=
  let (n, count, rest) := takeDigits wordLimit significand 0 s
  if count = 0 && !digitNext rest then
    .error (.at (if rest.isEmpty then .endInValue else .invalidNumber) rest)
  else
    let e := e - count
    let rest := dropDigits rest
    if exponentNext rest then exponent negative n e (rest.drop 1)
    else float negative n e rest

/-- An integer without point or exponent.  Negative zero and integers below `-2 ^ 63` become
doubles. -/
def integer (negative : Bool) (n : Nat) : Number :=
  if negative then
    if 0 < n && n ≤ leastSize then .integer (-n) else .float (-(n.toUInt64.toFloat))
  else .integer n

/-- What may follow the integer part `n`, of which `dropped` digits did not fit. -/
def afterInteger (negative : Bool) (n dropped : Nat) (s : Bytes) :
    Except Fault (Number × Bytes) :=
  if s.head? = some Octet.dot then fraction negative n dropped (s.drop 1)
  else if exponentNext s then exponent negative n dropped (s.drop 1)
  else if dropped = 0 then .ok (integer negative n, s)
  else float negative n dropped s

def read (negative : Bool) : Bytes → Except Fault (Number × Bytes)
  | [] => .error (.at .endInValue [])
  | b :: s =>
    if b = Octet.zero then
      if digitNext s then .error (.at .invalidNumber s) else afterInteger negative 0 0 s
    else if Octet.isDigit b then
      let (n, _, rest) := takeDigits wordLimit (Octet.digitValue b) 0 s
      afterInteger negative n (countDigits rest) (dropDigits rest)
    else .error (.before .invalidNumber s)

end GzipStage.Json.NumberLiteral
