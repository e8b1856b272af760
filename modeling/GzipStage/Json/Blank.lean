import GzipStage.Json.Error

namespace GzipStage.Json

def isBlank (b : UInt8) : Bool :=
  b = Octet.space || b = Octet.lineFeed || b = Octet.tab || b = Octet.carriageReturn

def skipBlanks (s : Bytes) : Bytes := s.dropWhile isBlank

/-- The octets left after `word`, which has to stand at the beginning of `s`. -/
def readWord : (word : Bytes) → (s : Bytes) → Except Fault Bytes
  | [], s => .ok s
  | _ :: _, [] => .error (.at .endInValue [])
  | w :: word, b :: s =>
    if w = b then readWord word s else .error (.before .expectedIdent s)

abbrev restOfNull : Bytes := [0x75, 0x6c, 0x6c]

abbrev restOfTrue : Bytes := [0x72, 0x75, 0x65]

abbrev restOfFalse : Bytes := [0x61, 0x6c, 0x73, 0x65]

end GzipStage.Json
