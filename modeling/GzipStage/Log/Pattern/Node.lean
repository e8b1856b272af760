import GzipStage.Log.Pattern.Place

/-! What is written in a pattern. -/
namespace GzipStage.Log.Pattern

/-- A character that stands for itself.  `octet` tells whether it is written as two hexadecimal
digits. -/
structure Literal where
  span : Span
  char : Char
  octet : Bool

inductive Flag where
  | caseless
  | multiLine
  | dotAll
  | swapGreed
  | unicode
  | carriage
  | spaced
  deriving DecidableEq

/-- What a list of flags is made of: a minus sign clears those that follow it. -/
inductive FlagItem where
  | minus
  | flag (f : Flag)
  deriving DecidableEq

/-- Whether a list of flags sets or clears a flag, if it does either. -/
def flagState (f : Flag) (items : List FlagItem) : Option Bool :=
  let before := items.takeWhile (· ≠ .flag f)
  if before.length < items.length then some (!before.contains .minus) else none

inductive Assertion where
  | lineStart
  | lineEnd
  | textStart
  | textEnd
  | wordBoundary
  | noWordBoundary
  | wordStart
  | wordEnd
  | wordStartHalf
  | wordEndHalf
  deriving DecidableEq

inductive Shorthand where
  | digit
  | space
  | word
  deriving DecidableEq

/-- The classes of characters below U+0080 that have a name. -/
inductive AsciiClass where
  | alnum
  | alpha
  | ascii
  | blank
  | cntrl
  | digit
  | graph
  | lower
  | print
  | punct
  | space
  | upper
  | word
  | xdigit
  deriving DecidableEq

def AsciiClass.ofName? (name : String) : Option AsciiClass :=
  [("alnum", .alnum), ("alpha", .alpha), ("ascii", .ascii), ("blank", .blank), ("cntrl", .cntrl),
    ("digit", .digit), ("graph", .graph), ("lower", .lower), ("print", .print), ("punct", .punct),
    ("space", .space), ("upper", .upper), ("word", .word), ("xdigit", .xdigit)].lookup name

inductive SetOperator where
  | intersection
  | difference
  | symmetricDifference
  deriving DecidableEq

inductive SetNode where
  | empty (span : Span)
  | literal (l : Literal)
  | range (span : Span) (least greatest : Literal)
  | ascii (span : Span) (c : AsciiClass) (negated : Bool)
  | property (span : Span) (name : String) (valued : Bool)
  | shorthand (span : Span) (s : Shorthand) (negated : Bool)
  | bracketed (span : Span) (negated : Bool) (inner : SetNode)
  | union (span : Span) (items : List SetNode)
  | binary (span : Span) (operator : SetOperator) (left right : SetNode)

def SetNode.span : SetNode → Span
  | .empty s => s
  | .literal l => l.span
  | .range s _ _ => s
  | .ascii s _ _ => s
  | .property s _ _ => s
  | .shorthand s _ _ => s
  | .bracketed s _ _ => s
  | .union s _ => s
  | .binary s _ _ _ => s

inductive Node where
  | empty (span : Span)
  | flags (span : Span) (items : List FlagItem)
  | literal (l : Literal)
  | dot (span : Span)
  | assertion (span : Span) (a : Assertion)
  | property (span : Span) (name : String) (valued : Bool)
  | shorthand (span : Span) (s : Shorthand) (negated : Bool)
  | bracketed (span : Span) (negated : Bool) (inner : SetNode)
  | repetition (span : Span) (least : Nat) (most : Option Nat) (node : Node)
  /-- A group; a capturing one has no flags of its own. -/
  | group (span : Span) (flags : Option (List FlagItem)) (node : Node)
  | alternation (span : Span) (nodes : List Node)
  | concat (span : Span) (nodes : List Node)

def Node.span : Node → Span
  | .empty s => s
  | .flags s _ => s
  | .literal l => l.span
  | .dot s => s
  | .assertion s _ => s
  | .property s _ _ => s
  | .shorthand s _ _ => s
  | .bracketed s _ _ => s
  | .repetition s _ _ _ => s
  | .group s _ _ => s
  | .alternation s _ => s
  | .concat s _ => s

def Node.ofPieces (span : Span) : List Node → Node
  | [] => .empty span
  | [node] => node
  | nodes => .concat span nodes

mutual

/-- The first stretch of a set at which more than `left` levels of brackets are open. -/
def SetNode.tooDeep (left : Nat) : SetNode → Option Span
  | .bracketed span _ inner =>
    match left with
    | 0 => some span
    | left + 1 => inner.tooDeep left
  | .union span items =>
    match left with
    | 0 => some span
    | left + 1 => SetNode.anyTooDeep left items
  | .binary span _ a b =>
    match left with
    | 0 => some span
    | left + 1 => (a.tooDeep left).or (b.tooDeep left)
  | _ => none

def SetNode.anyTooDeep (left : Nat) : List SetNode → Option Span
  | [] => none
  | item :: items => (item.tooDeep left).or (SetNode.anyTooDeep left items)

end

mutual

/-- The first stretch at which more than `left` levels of nesting are open. -/
def Node.tooDeep (left : Nat) : Node → Option Span
  | .bracketed span _ inner =>
    match left with
    | 0 => some span
    | left + 1 => inner.tooDeep left
  | .repetition span _ _ node | .group span _ node =>
    match left with
    | 0 => some span
    | left + 1 => node.tooDeep left
  | .alternation span nodes | .concat span nodes =>
    match left with
    | 0 => some span
    | left + 1 => Node.anyTooDeep left nodes
  | _ => none

def Node.anyTooDeep (left : Nat) : List Node → Option Span
  | [] => none
  | node :: nodes => (node.tooDeep left).or (Node.anyTooDeep left nodes)

end

end GzipStage.Log.Pattern
