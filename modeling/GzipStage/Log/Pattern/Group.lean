import GzipStage.Log.Pattern.Cursor
import GzipStage.Log.Pattern.Node
import GzipStage.Text.Letter

namespace GzipStage.Log.Pattern.Group

open Reading

/-- What an opening parenthesis begins: flags for what follows, or a group, which has no flags
of its own if it captures. -/
inductive Head where
  | flags (span : Span) (items : List FlagItem)
  | group (span : Span) (flags : Option (List FlagItem))

def flag? (c : Char) : Option Flag :=
  match c with
  | 'i' => some .caseless
  | 'm' => some .multiLine
  | 's' => some .dotAll
  | 'U' => some .swapGreed
  | 'u' => some .unicode
  | 'R' => some .carriage
  | 'x' => some .spaced
  | _ => none

/-- Reads flags, which are not given twice, up to a colon or a closing parenthesis: `done` are
those before, latest first.  Every step passes a character, so `fuel` is enough when it exceeds
the number of characters. -/
def flagsFrom : (fuel : Nat) → (done : List (FlagItem × Span)) → Reading (List FlagItem)
  | 0, _ => return []
  | fuel + 1, done => do
    let span ← charSpan
    match ← peek? with
    | none => refuse .flagEnd (← here)
    | some c =>
      if c = ':' || c = ')' then
        match done with
        | (.minus, span) :: _ => refuse .minusDangling span
        | _ => return (done.map (·.1)).reverse
      else
        let (item, complaint) ←
          if c = '-' then pure (FlagItem.minus, Complaint.minusAgain)
          else match flag? c with
            | some f => pure (FlagItem.flag f, Complaint.flagAgain)
            | none => refuse .flagUnknown span
        match done.lookup item with
        | some earlier => refuse complaint span (some earlier)
        | none =>
          pass
          flagsFrom fuel ((item, span) :: done)

/-- Whether a character can be in a name, at its beginning or later. -/
def isNameChar (first : Bool) (c : Char) : Bool :=
  c = '_' || Letter.isLetter c ||
    (!first && (c = '.' || c = '[' || c = ']' || Letter.isDigit c))

def word : Reading (List Char) := do
  match ← peek? with
  | none => return []
  | some c =>
    if isNameChar true c then
      pass
      return c :: (← collect (isNameChar false) Cursor.next)
    else return []

def name : Reading Unit := do
  let start ← place
  let letters ← word
  let stop ← place
  match ← peek? with
  | none => refuse .nameEnd (← here)
  | some c =>
    if c ≠ '>' then refuse .nameCharacter (← charSpan)
    pass
    if letters = [] then refuse .nameEmpty (.empty start)
    let name := String.ofList letters
    let span : Span := ⟨start, stop⟩
    match (← get).names.lookup name with
    | some earlier => refuse .nameAgain span (some earlier)
    | none => modify fun c => { c with names := (name, span) :: c.names }

def lookAround : Reading Bool := do
  for signs in ["?=", "?!", "?<=", "?<!"] do
    if ← passIf signs then return true
  return false

def read : Reading Head := do
  let span ← charSpan
  pass
  modify Cursor.skipBlanks
  if ← lookAround then refuse .lookAround ⟨span.start, ← place⟩
  let sign ← here
  if ← passIf "?P<" then
    name
    return .group span none
  else if ← passIf "?<" then
    name
    return .group span none
  else if ← passIf "?" then
    if (← peek?).isNone then refuse .groupUnclosed span
    let items ← flagsFrom ((← get).rest.length + 1) []
    let closed := (← peek?) = some ')'
    pass
    if closed then
      if items = [] then refuse .repetitionMissing sign
      return .flags ⟨span.start, ← place⟩ items
    else return .group span (some items)
  else return .group span none

end GzipStage.Log.Pattern.Group
