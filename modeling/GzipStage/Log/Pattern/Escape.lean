import GzipStage.Log.Pattern.Cursor
import GzipStage.Log.Pattern.Node

/-! What stands after a backslash. -/
namespace GzipStage.Log.Pattern.Escape

open Reading

def isHexDigit (c : Char) : Bool :=
  c.isDigit || ('a' ≤ c && c ≤ 'f') || ('A' ≤ c && c ≤ 'F')

def hexValue (c : Char) : Nat :=
  if c.isDigit then c.toNat - 0x30 else c.toLower.toNat - 0x57

def ofHex? (digits : List Char) : Option Char :=
  let n := digits.foldl (fun n c => n * 16 + hexValue c) 0
  if n.isValidChar then some (Char.ofNat n) else none

def hexDigits : (wanted : Nat) → Reading (List Char)
  | 0 => return []
  | wanted + 1 => do
    match ← peek? with
    | none => refuse .escapeEnd (← here)
    | some c =>
      if isHexDigit c then
        advance
        return c :: (← hexDigits wanted)
      else refuse .hexDigit (← charSpan)

/-- Reads a number with a fixed count of digits.  `start` is where the backslash is. -/
def fixedHex (start : Place) (wanted : Nat) : Reading Literal := do
  let first ← place
  let digits ← hexDigits wanted
  let stop ← place
  match ofHex? digits with
  | some c => return ⟨⟨start, stop⟩, c, wanted = 2⟩
  | none => refuse .hexInvalid ⟨first, stop⟩

def bracedHex (start : Place) : Reading Literal := do
  let brace ← place
  let first := (← charSpan).stop
  advance
  let digits ← collect isHexDigit Cursor.advance
  match ← peek? with
  | none => refuse .escapeEnd ⟨brace, ← place⟩
  | some c =>
    if c ≠ '\x7d' then refuse .hexDigit (← charSpan)
    else
      let stop ← place
      advance
      if digits = [] then refuse .hexEmpty ⟨brace, ← place⟩
      match ofHex? digits with
      | some c => return ⟨⟨start, ← place⟩, c, false⟩
      | none => refuse .hexInvalid ⟨first, stop⟩

/-- Reads the number of a character after the letter that announces it. -/
def hex (start : Place) (wanted : Nat) : Reading Literal := do
  advance
  match ← peek? with
  | none => refuse .escapeEnd (← here)
  | some c => if c = '\x7b' then bracedHex start else fixedHex start wanted

/-- Reads the name of a property: its stretch, the name, and whether it has a value. -/
def property (start : Place) : Reading (Span × String × Bool) := do
  advance
  match ← peek? with
  | none => refuse .escapeEnd (← here)
  | some c =>
    if c = '\x7b' then
      advance
      let name ← collect (· ≠ '\x7d') Cursor.advance
      if (← peek?).isNone then refuse .escapeEnd (← here)
      pass
      return (⟨start, ← place⟩, String.ofList name, name.any fun c => c = ':' || c = '=')
    else if c = '\\' then refuse .propertyForm (← charSpan)
    else
      advance
      return (⟨start, ← place⟩, String.ofList [c], false)

def isBoundaryChar (c : Char) : Bool := c.isAlpha || c = '-'

/-- Reads the name of a word boundary in braces, if a name comes after the brace and no count.
`start` is where the backslash is. -/
def boundary? (start : Place) : Reading (Option Assertion) := do
  let before ← get
  advance
  match ← peek? with
  | none => refuse .wordBoundaryEnd ⟨start, ← place⟩
  | some c =>
    if !isBoundaryChar c then
      set before
      return none
    let first ← place
    let name ← collect isBoundaryChar Cursor.advance
    if (← peek?) ≠ some '\x7d' then refuse .wordBoundaryUnclosed ⟨before.place, ← place⟩
    let stop ← place
    pass
    match String.ofList name with
    | "start" => return some .wordStart
    | "end" => return some .wordEnd
    | "start-half" => return some .wordStartHalf
    | "end-half" => return some .wordEndHalf
    | _ => refuse .wordBoundaryUnknown ⟨first, stop⟩

/-- Whether a character below U+0080 stands for itself after a backslash: those that have a
meaning of their own do, and all others but digits, letters and angles. -/
def standsForItself (c : Char) : Bool :=
  c.toNat < 0x80 && !c.isAlphanum && c ≠ '<' && c ≠ '>'

def control? (c : Char) : Option Char :=
  match c with
  | 'a' => some '\x07'
  | 'f' => some '\x0c'
  | 't' => some '\t'
  | 'n' => some '\n'
  | 'r' => some '\r'
  | 'v' => some '\x0b'
  | _ => none

/-- The class that a letter stands for; a capital stands for all other characters. -/
def shorthand? (c : Char) : Option (Shorthand × Bool) :=
  match c with
  | 'd' => some (.digit, false)
  | 'D' => some (.digit, true)
  | 's' => some (.space, false)
  | 'S' => some (.space, true)
  | 'w' => some (.word, false)
  | 'W' => some (.word, true)
  | _ => none

def assertion? (c : Char) : Option Assertion :=
  match c with
  | 'A' => some .textStart
  | 'z' => some .textEnd
  | 'b' => some .wordBoundary
  | 'B' => some .noWordBoundary
  | '<' => some .wordStart
  | '>' => some .wordEnd
  | _ => none

def hexWidth? (c : Char) : Option Nat :=
  match c with
  | 'x' => some 2
  | 'u' => some 4
  | 'U' => some 8
  | _ => none

def assertion (start : Place) (a : Assertion) : Reading Node := do
  if a = .wordBoundary && (← peek?) = some '\x7b' then
    let named ← boundary? start
    return .assertion ⟨start, ← place⟩ (named.getD a)
  else return .assertion ⟨start, ← place⟩ a

/-- Reads a character after a backslash that is neither a number nor a property. -/
def single (start : Place) (c : Char) : Reading Node := do
  pass
  let span : Span := ⟨start, ← place⟩
  match shorthand? c, control? c, assertion? c with
  | some (s, negated), _, _ => return .shorthand span s negated
  | none, some d, _ => return .literal ⟨span, d, false⟩
  | none, none, some a => assertion start a
  | none, none, none =>
    if standsForItself c then return .literal ⟨span, c, false⟩ else refuse .escapeUnknown span

def read : Reading Node := do
  let start ← place
  pass
  match ← peek? with
  | none => refuse .escapeEnd ⟨start, ← place⟩
  | some c =>
    if c.isDigit then refuse .backreference ⟨start, (← charSpan).stop⟩
    else match hexWidth? c with
      | some wanted => return .literal (← hex start wanted)
      | none =>
        if c = 'p' || c = 'P' then
          let (span, name, valued) ← property start
          return .property span name valued
        else single start c

end GzipStage.Log.Pattern.Escape
