import GzipStage.Decimal.Shortest
import GzipStage.Json.Value

/-! Values as text, compact or with every item on a line of its own. -/
namespace GzipStage.Json

def hexDigit (n : Nat) : Char := Nat.digitChar n

def escapeChar (c : Char) : List Char :=
  match c with
  | '"' => ['\\', '"']
  | '\\' => ['\\', '\\']
  | '\x08' => ['\\', 'b']
  | '\x0c' => ['\\', 'f']
  | '\n' => ['\\', 'n']
  | '\r' => ['\\', 'r']
  | '\t' => ['\\', 't']
  | c =>
    if c.toNat < 0x20 then ['\\', 'u', '0', '0', hexDigit (c.toNat / 16), hexDigit (c.toNat % 16)]
    else [c]

def renderString (s : String) : List Char := '"' :: s.toList.flatMap escapeChar ++ ['"']

def Number.render : Number → List Char
  | .integer n => (if n < 0 then ['-'] else []) ++ Nat.toDigits 10 n.natAbs
  | .float x => Decimal.render x

def renderWord (b : Bool) : List Char := (if b then "true" else "false").toList

mutual

def Value.render : Value → List Char
  | .null => ['n', 'u', 'l', 'l']
  | .bool b => renderWord b
  | .number n => n.render
  | .string s => renderString s
  | .array [] => ['[', ']']
  | .array (v :: vs) => '[' :: v.render ++ renderItems vs
  | .object [] => ['\x7b', '\x7d']
  | .object ((name, v) :: ms) =>
    '\x7b' :: renderString name ++ ':' :: v.render ++ renderMembers ms

def renderItems : List Value → List Char
  | [] => [']']
  | v :: vs => ',' :: v.render ++ renderItems vs

def renderMembers : List (String × Value) → List Char
  | [] => ['\x7d']
  | (name, v) :: ms => ',' :: renderString name ++ ':' :: v.render ++ renderMembers ms

end

def Members.render (ms : Members) : String := String.ofList (Value.object ms).render

def newline (level : Nat) : List Char := '\n' :: List.replicate (2 * level) ' '

mutual

/-- The pretty form of a value that stands inside `level` open brackets. -/
def Value.renderPretty (level : Nat) : Value → List Char
  | .null => ['n', 'u', 'l', 'l']
  | .bool b => renderWord b
  | .number n => n.render
  | .string s => renderString s
  | .array [] => ['[', ']']
  | .array (v :: vs) =>
    '[' :: newline (level + 1) ++ v.renderPretty (level + 1) ++ prettyItems level vs
  | .object [] => ['\x7b', '\x7d']
  | .object ((name, v) :: ms) =>
    '\x7b' :: newline (level + 1) ++ renderString name ++ [':', ' '] ++
      v.renderPretty (level + 1) ++ prettyMembers level ms

def prettyItems (level : Nat) : List Value → List Char
  | [] => newline level ++ [']']
  | v :: vs =>
    ',' :: newline (level + 1) ++ v.renderPretty (level + 1) ++ prettyItems level vs

def prettyMembers (level : Nat) : List (String × Value) → List Char
  | [] => newline level ++ ['\x7d']
  | (name, v) :: ms =>
    ',' :: newline (level + 1) ++ renderString name ++ [':', ' '] ++
      v.renderPretty (level + 1) ++ prettyMembers level ms

end

def Value.compact (v : Value) : String := String.ofList v.render

def Value.pretty (v : Value) : String := String.ofList (v.renderPretty 0)

end GzipStage.Json
