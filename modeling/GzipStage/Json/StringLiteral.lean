import GzipStage.Json.Blank
import GzipStage.Text.Utf8

/-! String literals, from after the opening quotation mark. -/
namespace GzipStage.Json.StringLiteral

inductive State where
  /-- Between characters. -/
  | plain
  /-- After a backslash. -/
  | escape
  /-- After `\u` and some hexadecimal digits: how many are still to come, the number they have
  spelt so far unless one was no digit, and the high surrogate before it, if any. -/
  | digits (owed : Nat) (value : Option Nat) (high : Option Nat)
  /-- After a high surrogate, where the next escape has to begin. -/
  | backslash (high : Nat)
  /-- After a high surrogate and a backslash. -/
  | letter (high : Nat)
  deriving DecidableEq

def simpleEscape? (b : UInt8) : Option UInt8 :=
  if b = Octet.quote || b = Octet.backslash || b = Octet.slash then some b
  else if b = 0x62 then some Octet.backspace
  else if b = 0x66 then some Octet.formFeed
  else if b = 0x6e then some Octet.lineFeed
  else if b = 0x72 then some Octet.carriageReturn
  else if b = 0x74 then some Octet.tab
  else none

/-- A number from four hexadecimal digits, met after the high surrogate `high` or on its own. -/
def unit (high : Option Nat) (n : Nat) : Except Cause (Bytes × State) :=
  let isHigh := 0xd800 ≤ n && n ≤ 0xdbff
  let isLow := 0xdc00 ≤ n && n ≤ 0xdfff
  match high with
  | none =>
    if isLow then .error .loneSurrogate
    else if isHigh then .ok ([], .backslash n)
    else .ok (Utf8.encodeChar (Char.ofNat n), .plain)
  | some h =>
    if isLow then
      .ok (Utf8.encodeChar (Char.ofNat (0x10000 + (h - 0xd800) * 0x400 + (n - 0xdc00))), .plain)
    else .error .loneSurrogate

/-- Takes one octet that is not the closing mark: what it adds to the contents, and where the
reader stands after it. -/
def step : State → UInt8 → Except Cause (Bytes × State)
  | .plain, b =>
    if b = Octet.backslash then .ok ([], .escape)
    else if b < 0x20 then .error .controlCharacter
    else .ok ([b], .plain)
  | .escape, b =>
    if b = 0x75 then .ok ([], .digits 4 (some 0) none)
    else match simpleEscape? b with
      | some c => .ok ([c], .plain)
      | none => .error .invalidEscape
  | .digits owed value high, b =>
    let value := value.bind fun n => (Octet.hexValue? b).map (n * 16 + ·)
    if 1 < owed then .ok ([], .digits (owed - 1) value high)
    else match value with
      | some n => unit high n
      | none => .error .invalidEscape
  | .backslash high, b =>
    if b = Octet.backslash then .ok ([], .letter high) else .error .endOfHexEscape
  | .letter high, b =>
    if b = 0x75 then .ok ([], .digits 4 (some 0) (some high)) else .error .endOfHexEscape

/-- Reads up to and including the closing mark: the contents, and the octets left.  `acc` holds
the contents so far, latest first. -/
def contents (acc : Bytes) (state : State) : Bytes → Except Fault (Bytes × Bytes)
  | [] => .error (.at .endInString [])
  | b :: s =>
    if state = .plain && b = Octet.quote then .ok (acc.reverse, s)
    else match step state b with
      | .error cause => .error (.before cause s)
      | .ok (out, state) => contents (out.reverse ++ acc) state s

def read (s : Bytes) : Except Fault (String × Bytes) := do
  let (bytes, rest) ← contents [] .plain s
  match Utf8.decode? bytes with
  | some text => .ok (text, rest)
  | none => .error ⟨.invalidCodePoint, rest.length + (bytes.length - Utf8.validLength bytes)⟩

end GzipStage.Json.StringLiteral
