import GzipStage.Decimal.Shortest
import GzipStage.Octet
import GzipStage.Text.Quoted

/-! Why a document is refused, and where. -/
namespace GzipStage.Json

inductive Found where
  | null
  | bool (b : Bool)
  | integer (n : Int)
  | float (x : Float)
  | string (s : String)
  | sequence
  | map

def Found.describe : Found → String
  | .null => "null"
  | .bool b => "boolean `" ++ (if b then "true" else "false") ++ "`"
  | .integer n => "integer `" ++ String.ofList (if n < 0 then ['-'] else []) ++
      String.ofList (Nat.toDigits 10 n.natAbs) ++ "`"
  | .float x => "floating point `" ++ String.ofList (Decimal.render x) ++ "`"
  | .string s => "string " ++ Quoted.quote s
  | .sequence => "sequence"
  | .map => "map"

inductive Cause where
  | endInList
  | endInObject
  | endInString
  | endInValue
  | expectedColon
  | expectedListCommaOrEnd
  | expectedObjectCommaOrEnd
  | expectedIdent
  | expectedValue
  | invalidEscape
  | invalidNumber
  | numberOutOfRange
  | invalidCodePoint
  | controlCharacter
  | keyMustBeString
  | loneSurrogate
  | endOfHexEscape
  | trailingComma
  | trailingCharacters
  | recursionLimit
  | invalidType (found : Found) (expected : String)
  | duplicateField (name : String)

def Cause.message : Cause → String
  | .endInList => "EOF while parsing a list"
  | .endInObject => "EOF while parsing an object"
  | .endInString => "EOF while parsing a string"
  | .endInValue => "EOF while parsing a value"
  | .expectedColon => "expected `:`"
  | .expectedListCommaOrEnd => "expected `,` or `]`"
  | .expectedObjectCommaOrEnd => "expected `,` or `\x7d`"
  | .expectedIdent => "expected ident"
  | .expectedValue => "expected value"
  | .invalidEscape => "invalid escape"
  | .invalidNumber => "invalid number"
  | .numberOutOfRange => "number out of range"
  | .invalidCodePoint => "invalid unicode code point"
  | .controlCharacter => "control character (\\u0000-\\u001F) found while parsing a string"
  | .keyMustBeString => "key must be a string"
  | .loneSurrogate => "lone leading surrogate in hex escape"
  | .endOfHexEscape => "unexpected end of hex escape"
  | .trailingComma => "trailing comma"
  | .trailingCharacters => "trailing characters"
  | .recursionLimit => "recursion limit exceeded"
  | .invalidType found expected => "invalid type: " ++ found.describe ++ ", expected " ++ expected
  | .duplicateField name => "duplicate field `" ++ name ++ "`"

/-- A reason, with the number of octets that were left when it arose. -/
structure Fault where
  cause : Cause
  left : Nat

def Fault.at (cause : Cause) (s : Bytes) : Fault := ⟨cause, s.length - 1⟩

def Fault.before (cause : Cause) (s : Bytes) : Fault := ⟨cause, s.length⟩

/-- A refused document: the reason and the place of the last octet that was looked at.  Lines
count from one; the column is the number of octets of the line up to that place. -/
structure Error where
  cause : Cause
  line : Nat
  column : Nat

def lineOf (s : Bytes) : Nat := s.count Octet.lineFeed + 1

def columnOf (s : Bytes) : Nat := (s.reverse.takeWhile (· ≠ Octet.lineFeed)).length

def Error.ofFault (document : Bytes) (f : Fault) : Error :=
  let read := document.take (document.length - f.left)
  ⟨f.cause, lineOf read, columnOf read⟩

def Error.message (e : Error) : String :=
  e.cause.message ++ " at line " ++ String.ofList (Nat.toDigits 10 e.line) ++
    " column " ++ String.ofList (Nat.toDigits 10 e.column)

end GzipStage.Json
