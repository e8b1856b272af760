import GzipStage.Log.Pattern.Bracket
import GzipStage.Log.Pattern.Group
import GzipStage.Log.Pattern.Repeat

/-! Reading a pattern. -/
namespace GzipStage.Log.Pattern

open Reading

/-- Pieces that have been read, latest first, and where they begin. -/
structure Pieces where
  start : Place
  nodes : List Node

def Pieces.toNode (p : Pieces) (stop : Place) : Node := .ofPieces ⟨p.start, stop⟩ p.nodes.reverse

inductive Open where
  /-- A group, with the pieces before it and whether white space counted for nothing there. -/
  | group (outer : Pieces) (span : Span) (flags : Option (List FlagItem)) (spaced : Bool)
  /-- Alternatives, latest first, and where the first one begins. -/
  | alternatives (start : Place) (nodes : List Node)

/-- Takes the alternatives off a stack: the piece that they make with the last one. -/
def closeAlternatives (last : Pieces) (stop : Place) : List Open → Node × List Open
  | .alternatives start nodes :: stack =>
    (.alternation ⟨start, stop⟩ (last.toNode stop :: nodes).reverse, stack)
  | stack => (last.toNode stop, stack)

def addAlternative (pieces : Pieces) (stop : Place) : List Open → List Open
  | .alternatives start nodes :: stack => .alternatives start (pieces.toNode stop :: nodes) :: stack
  | stack => .alternatives pieces.start [pieces.toNode stop] :: stack

/-- Reads one character, which stands for itself unless it is a sign. -/
def single (c : Char) : Reading Node := do
  if c = '\\' then Escape.read
  else
    let span ← charSpan
    pass
    match c with
    | '.' => return .dot span
    | '^' => return .assertion span .lineStart
    | '$' => return .assertion span .lineEnd
    | c => return .literal ⟨span, c, false⟩

/-- Reads on to the end.  Every step passes a character, so `fuel` is enough when it exceeds the
number of characters. -/
def readFrom : (fuel : Nat) → List Open → Pieces → Reading Node
  | 0, _, pieces => return pieces.toNode (← place)
  | fuel + 1, stack, pieces => do
    modify Cursor.skipBlanks
    let c ← get
    let add (node : Node) : Reading Node :=
      readFrom fuel stack { pieces with nodes := node :: pieces.nodes }
    let rest (nodes : List Node) : Reading Node := readFrom fuel stack { pieces with nodes }
    match c.rest with
    | [] =>
      match closeAlternatives pieces c.place stack with
      | (node, []) => return node
      | (_, .group _ span _ _ :: _) => refuse .groupUnclosed span
      | (_, .alternatives _ _ :: _) => refuse .groupUnclosed (← here)
    | '(' :: _ =>
      match ← Group.read with
      | .flags span items =>
        modify fun c => { c with spaced := (flagState .spaced items).getD c.spaced }
        add (.flags span items)
      | .group span flags =>
        modify fun c => { c with spaced := (flags.bind (flagState .spaced)).getD c.spaced }
        readFrom fuel (.group pieces span flags c.spaced :: stack) ⟨← place, []⟩
    | ')' :: _ =>
      match closeAlternatives pieces c.place stack with
      | (node, .group outer span flags spaced :: stack) =>
        modify fun c => { c with spaced }
        pass
        let node := .group ⟨span.start, ← place⟩ flags node
        readFrom fuel stack { outer with nodes := node :: outer.nodes }
      | _ => refuse .groupUnopened c.charSpan
    | '|' :: _ =>
      pass
      readFrom fuel (addAlternative pieces c.place stack) ⟨← place, []⟩
    | '[' :: _ => add (← Bracket.read)
    | '?' :: _ => rest (← Repeat.sign 0 (some 1) pieces.nodes)
    | '*' :: _ => rest (← Repeat.sign 0 none pieces.nodes)
    | '+' :: _ => rest (← Repeat.sign 1 none pieces.nodes)
    | '\x7b' :: _ => rest (← Repeat.counted pieces.nodes)
    | x :: _ => add (← single x)

def maxNesting : Nat := 250

def readNode (text : String) : Except Fault Node := do
  let (node, _) ← (readFrom (text.length + 1) [] ⟨.start, []⟩).run (.ofText text)
  match node.tooDeep maxNesting with
  | some span => .error ⟨.nesting maxNesting, span, none⟩
  | none => .ok node

end GzipStage.Log.Pattern
