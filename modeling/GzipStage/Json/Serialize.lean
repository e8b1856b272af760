import GzipStage.Json.Error
import GzipStage.Json.Printer

/-!
Printing that may fail.  Data that is printed may have maps with any keys, and only some of them can
be the name of a member.
-/
namespace GzipStage.Json

inductive Key where
  | string (s : String)
  | number (n : Number)
  | bool (b : Bool)
  /-- Nothing, a list or another map. -/
  | other

def Key.serialize : Key → Except Error (List Char)
  | .string s => .ok (renderString s)
  | .number n => .ok ('"' :: n.render ++ ['"'])
  | .bool b => .ok ('"' :: renderWord b ++ ['"'])
  | .other => .error ⟨.keyMustBeString, 0, 0⟩

mutual

def Value.serialize : Value → Except Error (List Char)
  | .null => .ok ['n', 'u', 'l', 'l']
  | .bool b => .ok (renderWord b)
  | .number n => .ok n.render
  | .string s => .ok (renderString s)
  | .array [] => .ok ['[', ']']
  | .array (v :: vs) => do
    let first ← v.serialize
    return '[' :: first ++ (← serializeItems vs)
  | .object [] => .ok ['\x7b', '\x7d']
  | .object ((name, v) :: ms) => do
    let key ← Key.serialize (.string name)
    let value ← v.serialize
    return '\x7b' :: key ++ ':' :: value ++ (← serializeMembers ms)

def serializeItems : List Value → Except Error (List Char)
  | [] => .ok [']']
  | v :: vs => do
    let item ← v.serialize
    return ',' :: item ++ (← serializeItems vs)

def serializeMembers : List (String × Value) → Except Error (List Char)
  | [] => .ok ['\x7d']
  | (name, v) :: ms => do
    let key ← Key.serialize (.string name)
    let value ← v.serialize
    return ',' :: key ++ ':' :: value ++ (← serializeMembers ms)

end

def Members.serialize (ms : Members) : Except Error String :=
  (Value.object ms).serialize.map String.ofList

end GzipStage.Json
