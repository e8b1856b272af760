import GzipStage.Log.Pattern.Fault

/-! Going through the text of a pattern. -/
namespace GzipStage.Log.Pattern

/-- What is left of a text, where it begins, whether white space counts for nothing, and the
names that groups have been given. -/
structure Cursor where
  rest : List Char
  place : Place
  spaced : Bool
  names : List (String × Span)

namespace Cursor

def ofText (text : String) : Cursor := ⟨text.toList, .start, false, []⟩

def next (c : Cursor) : Cursor :=
  match c.rest with
  | [] => c
  | x :: xs => { c with rest := xs, place := c.place.next x }

def skip (c : Cursor) (n : Nat) : Cursor := n.repeat next c

/-- Passes white space and comments; `inComment` tells whether the text begins in one. -/
def blanks : (inComment : Bool) → Place → List Char → List Char × Place
  | _, p, [] => ([], p)
  | true, p, x :: xs => blanks (x ≠ '\n') (p.next x) xs
  | false, p, x :: xs =>
    if isSpace x then blanks false (p.next x) xs
    else if x = '#' then blanks true (p.next x) xs
    else (x :: xs, p)

def skipBlanks (c : Cursor) : Cursor :=
  if c.spaced then
    let (rest, place) := blanks false c.place c.rest
    { c with rest, place }
  else c

def advance (c : Cursor) : Cursor := c.next.skipBlanks

def charSpan (c : Cursor) : Span := ⟨c.place, c.next.place⟩

/-- The character after the next one.  Where white space counts for nothing it is passed over,
and with it the sign that begins a comment. -/
def second? (c : Cursor) : Option Char :=
  let rest := c.rest.drop 1
  if c.spaced then
    let text := rest.dropWhile isSpace
    let text := if text.head? = some '#' then (text.drop 1).dropWhile isSpace else text
    text.head?.or rest.head?
  else rest.head?

/-- Takes characters that satisfy `p`, passing each with `step`.  Every step passes a character,
so `fuel` is enough when it is at least the number of characters. -/
def collect (p : Char → Bool) (step : Cursor → Cursor) : (fuel : Nat) → Cursor → List Char × Cursor
  | 0, c => ([], c)
  | fuel + 1, c =>
    match c.rest with
    | [] => ([], c)
    | x :: _ =>
      if p x then
        let (xs, c) := collect p step fuel (step c)
        (x :: xs, c)
      else ([], c)

end Cursor

abbrev Reading := StateT Cursor (Except Fault)

namespace Reading

def refuse {α : Type} (complaint : Complaint) (span : Span) (earlier : Option Span := none) :
    Reading α :=
  throw ⟨complaint, span, earlier⟩

def place : Reading Place := return (← get).place

def here : Reading Span := return .empty (← get).place

def charSpan : Reading Span := return (← get).charSpan

def peek? : Reading (Option Char) := return (← get).rest.head?

def pass : Reading Unit := modify Cursor.next

def advance : Reading Unit := modify Cursor.advance

def passIf (text : String) : Reading Bool := do
  let c ← get
  if text.toList.isPrefixOf c.rest then
    set (c.skip text.length)
    return true
  else return false

def collect (p : Char → Bool) (step : Cursor → Cursor) : Reading (List Char) := do
  let c ← get
  let (xs, c) := c.collect p step c.rest.length
  set c
  return xs

end Reading

end GzipStage.Log.Pattern
