import GzipStage.Json.Read
import GzipStage.Json.Skip

/-! Records: values with a fixed set of named fields, written as an object or as the list of
their values in the order of declaration. -/
namespace GzipStage.Json

/-- A field of a record of type `σ`: its name, and how its value is read into the record. -/
structure Field (σ : Type) where
  name : String
  read : Nat → σ → Bytes → Except Fault (σ × Bytes)

/-- The field of a given name whose value is read by `reader` and stored by `set`. -/
def Field.of {σ α : Type} (name : String) (reader : Reader α) (set : σ → α → σ) : Field σ where
  name := name
  read levels x s := do
    let (a, s) ← reader levels s
    .ok (set x a, s)

namespace Record

variable {σ : Type}

/-- Reads values in the order of the fields until the list ends or all fields have been read. -/
def positional (levels : Nat) : List (Field σ) → Bool → σ → Bytes → Except Fault (σ × Bytes)
  | [], _, x, s => .ok (x, s)
  | field :: fields, first, x, s => do
    match ← nextItem? first s with
    | none => .ok (x, s)
    | some s =>
      let (x, s) ← field.read levels x s
      positional levels fields false x s

/-- The fault of a field that occurs twice, from after its name.  The blanks that follow count
as read, and so does a bracket that closes the object there. -/
def duplicate (name : String) (s : Bytes) : Fault :=
  match skipBlanks s with
  | [] => .before (.duplicateField name) []
  | b :: s => .before (.duplicateField name) (if b = Octet.closeBrace then s else b :: s)

/-- Reads one member from after its name.  The state holds the record and the names of the
fields that have been read. -/
def member (fields : List (Field σ)) (levels : Nat) (name : String) :
    σ × List String → Bytes → Except Fault ((σ × List String) × Bytes)
  | (x, seen), s =>
    match fields.find? (·.name = name) with
    | none => do
      let s ← readColon s
      let s ← Skip.value s
      .ok ((x, seen), s)
    | some field =>
      if name ∈ seen then .error (duplicate name s)
      else do
        let s ← readColon s
        let (x, s) ← field.read levels x s
        .ok ((x, name :: seen), s)

end Record

def record {σ : Type} (name : String) (fields : List (Field σ)) (initial : σ) : Reader σ :=
  fun levels s =>
    match skipBlanks s with
    | [] => .error (.at .endInValue [])
    | b :: s =>
      if b = Octet.openBracket then deeper (b :: s) levels fun levels => do
        let (x, s) ← Record.positional levels fields true initial s
        return (x, ← closeList s)
      else if b = Octet.openBrace then deeper (b :: s) levels fun levels => do
        let ((x, _), s) ←
          members (Record.member fields levels) (s.length + 1) true (initial, []) s
        return (x, ← closeObject s)
      else .error (mismatch ("struct " ++ name) (b :: s))

end GzipStage.Json
