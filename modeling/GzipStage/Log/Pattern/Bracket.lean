import GzipStage.Log.Pattern.Escape

/-! Sets in brackets. -/
namespace GzipStage.Log.Pattern.Bracket

open Reading

/-- Items that have been gathered, latest first, and their stretch. -/
structure Items where
  span : Span
  items : List SetNode

def Items.push (u : Items) (item : SetNode) : Items :=
  ⟨⟨if u.items.isEmpty then item.span.start else u.span.start, item.span.stop⟩, item :: u.items⟩

def Items.toNode (u : Items) : SetNode :=
  match u.items with
  | [] => .empty u.span
  | [item] => item
  | items => .union u.span items.reverse

/-- An opening bracket, the signs after it, and whether the set is negated. -/
structure Opening where
  span : Span
  negated : Bool

/-- What is open around the items that are being gathered. -/
inductive Frame where
  | set (outer : Items) (opening : Opening)
  | operator (o : SetOperator) (left : SetNode)

def openSpan? : List Frame → Option Span
  | [] => none
  | .set _ opening :: _ => some opening.span
  | .operator _ _ :: rest => openSpan? rest

def unclosed {α : Type} (stack : List Frame) : Reading α := do
  refuse .classUnclosed ((openSpan? stack).getD (← here))

def combine (right : SetNode) : List Frame → SetNode × List Frame
  | .operator o left :: rest =>
    combine (.binary ⟨left.span.start, right.span.stop⟩ o left right) rest
  | stack => (right, stack)

/-- Reads minus signs that stand for themselves because they come first. -/
def leadingMinus (start : Place) : (fuel : Nat) → Items → Reading Items
  | 0, u => return u
  | fuel + 1, u => do
    if (← peek?) = some '-' then
      let span ← charSpan
      advance
      if (← peek?).isNone then refuse .classUnclosed (.empty start)
      leadingMinus start fuel (u.push (.literal ⟨span, '-', false⟩))
    else return u

/-- Reads an opening bracket, a sign of negation, and the characters that stand for themselves
because they come first. -/
def opening : Reading (Opening × Items) := do
  let start ← place
  let orEnd : Reading Unit := do
    if (← peek?).isNone then refuse .classUnclosed ⟨start, ← place⟩
  advance
  orEnd
  let negated := (← peek?) = some '^'
  if negated then
    advance
    orEnd
  let u ← leadingMinus start (← get).rest.length ⟨← here, []⟩
  if u.items.isEmpty && (← peek?) = some ']' then
    let span ← charSpan
    advance
    orEnd
    return (⟨⟨start, ← place⟩, negated⟩, u.push (.literal ⟨span, ']', false⟩))
  else return (⟨⟨start, ← place⟩, negated⟩, u)

def named? (c : Cursor) : Option (SetNode × Cursor) :=
  match c.rest with
  | '[' :: ':' :: rest =>
    let negated := rest.head? = some '^'
    let rest := if negated then rest.drop 1 else rest
    let name := rest.takeWhile (· ≠ ':')
    if (rest.drop name.length).take 2 = [':', ']'] then
      (AsciiClass.ofName? (String.ofList name)).map fun k =>
        let after := c.skip (4 + name.length + (if negated then 1 else 0))
        (.ascii ⟨c.place, after.place⟩ k negated, after)
    else none
  | _ => none

def item : Reading Node := do
  match ← peek? with
  | some '\\' => Escape.read
  | some c =>
    let span ← charSpan
    pass
    return .literal ⟨span, c, false⟩
  | none => return .empty (← here)

def toItem : Node → Reading SetNode
  | .literal l => return .literal l
  | .property span name valued => return .property span name valued
  | .shorthand span s negated => return .shorthand span s negated
  | node => refuse .classEscape node.span

def toBound : Node → Reading Literal
  | .literal l => return l
  | node => refuse .classRangeBound node.span

def itemOrRange (stack : List Frame) : Reading SetNode := do
  let first ← item
  modify Cursor.skipBlanks
  let c ← get
  if c.rest.isEmpty then unclosed stack
  if c.rest.head? ≠ some '-' || c.second? = some ']' || c.second? = some '-' then toItem first
  else
    advance
    if (← peek?).isNone then unclosed stack
    let second ← item
    let span : Span := ⟨first.span.start, second.span.stop⟩
    let least ← toBound first
    let greatest ← toBound second
    if greatest.char < least.char then refuse .classRangeOrder span
    return .range span least greatest

inductive Sign where
  | bracket
  | close
  | operator (o : SetOperator)
  | other

def Sign.ofText : List Char → Sign
  | '[' :: _ => .bracket
  | ']' :: _ => .close
  | '&' :: '&' :: _ => .operator .intersection
  | '-' :: '-' :: _ => .operator .difference
  | '~' :: '~' :: _ => .operator .symmetricDifference
  | _ => .other

/-- Reads on until the outermost bracket is closed.  Every step passes a character, so `fuel` is
enough when it exceeds the number of characters. -/
def readFrom : (fuel : Nat) → List Frame → Items → Reading Node
  | 0, stack, _ => unclosed stack
  | fuel + 1, stack, u => do
    modify Cursor.skipBlanks
    let c ← get
    if c.rest.isEmpty then unclosed stack
    match Sign.ofText c.rest with
    | .bracket =>
      match if stack.isEmpty then none else named? c with
      | some (node, after) =>
        set after
        readFrom fuel stack (u.push node)
      | none =>
        let (opening, inner) ← opening
        readFrom fuel (.set u opening :: stack) inner
    | .close =>
      match combine u.toNode stack with
      | (inner, .set outer opening :: rest) =>
        pass
        let span : Span := ⟨opening.span.start, ← place⟩
        if rest.isEmpty then return .bracketed span opening.negated inner
        else readFrom fuel rest (outer.push (.bracketed span opening.negated inner))
      | (_, stack) => unclosed stack
    | .operator o =>
      set (c.skip 2)
      let (left, rest) := combine u.toNode stack
      readFrom fuel (.operator o left :: rest) ⟨← here, []⟩
    | .other => readFrom fuel stack (u.push (← itemOrRange stack))

def read : Reading Node := do
  readFrom ((← get).rest.length + 1) [] ⟨← here, []⟩

end GzipStage.Log.Pattern.Bracket
