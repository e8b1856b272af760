import GzipStage.Text.Quoted

namespace GzipStage.Log

inductive Level where
  | error
  | warn
  | info
  | debug
  | trace
  deriving DecidableEq

namespace Level

def detail : Level → Nat
  | .error => 1
  | .warn => 2
  | .info => 3
  | .debug => 4
  | .trace => 5

def name : Level → String
  | .error => "ERROR"
  | .warn => "WARN"
  | .info => "INFO"
  | .debug => "DEBUG"
  | .trace => "TRACE"

/-- The name filled up with blanks to the width of the longest one. -/
def padded : Level → String
  | .info => "INFO "
  | .warn => "WARN "
  | level => level.name

end Level

structure Record where
  level : Level
  target : String
  text : String
  deriving DecidableEq

def indentLines (text : String) : String :=
  String.ofList (text.toList.flatMap fun c =>
    if c = '\n' then ['\n', ' ', ' ', ' ', ' '] else [c])

def Record.line (r : Record) : String :=
  "[" ++ r.level.padded ++ " " ++ r.target ++ "] " ++ indentLines r.text ++ "\n"

end GzipStage.Log
