namespace GzipStage.Json

/-- A number is an integer or a double.  The two kinds are never equal to each other. -/
inductive Number where
  | integer (n : Int)
  | float (x : Float)

inductive Value where
  | null
  | bool (b : Bool)
  | number (n : Number)
  | string (s : String)
  | array (items : List Value)
  | object (members : List (String × Value))

abbrev Members := List (String × Value)

namespace Members

def insert (name : String) (value : Value) : Members → Members
  | [] => [(name, value)]
  | (n, v) :: rest =>
    if name < n then (name, value) :: (n, v) :: rest
    else if name = n then (name, value) :: rest
    else (n, v) :: insert name value rest

def get? (members : Members) (name : String) : Option Value :=
  (members.find? (·.1 = name)).map (·.2)

def names (members : Members) : List String := members.map (·.1)

end Members

/-- Equality of numbers: doubles are compared as numbers, so the two zeros are equal. -/
def Number.same : Number → Number → Bool
  | .integer m, .integer n => m = n
  | .float x, .float y => x == y
  | _, _ => false

mutual

def Value.same : Value → Value → Bool
  | .null, .null => true
  | .bool a, .bool b => a = b
  | .number m, .number n => m.same n
  | .string s, .string t => s = t
  | .array xs, .array ys => sameItems xs ys
  | .object ms, .object ns => sameMembers ms ns
  | _, _ => false

def sameItems : List Value → List Value → Bool
  | [], [] => true
  | x :: xs, y :: ys => x.same y && sameItems xs ys
  | _, _ => false

def sameMembers : List (String × Value) → List (String × Value) → Bool
  | [], [] => true
  | (m, x) :: xs, (n, y) :: ys => m = n && x.same y && sameMembers xs ys
  | _, _ => false

end

end GzipStage.Json
