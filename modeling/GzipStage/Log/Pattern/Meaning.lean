import GzipStage.Log.Pattern.Expr
import GzipStage.Log.Pattern.Fault
import GzipStage.Log.Pattern.Node

/-! From what is written to what it means under the flags that hold there. What needs the Unicode
tables of classes and cases is refused. -/
namespace GzipStage.Log.Pattern

structure Flags where
  caseless : Bool := false
  multiLine : Bool := false
  dotAll : Bool := false
  unicode : Bool := true
  carriage : Bool := false

def Flags.apply (f : Flags) (items : List FlagItem) : Flags where
  caseless := (flagState .caseless items).getD f.caseless
  multiLine := (flagState .multiLine items).getD f.multiLine
  dotAll := (flagState .dotAll items).getD f.dotAll
  unicode := (flagState .unicode items).getD f.unicode
  carriage := (flagState .carriage items).getD f.carriage

def AsciiClass.ranges : AsciiClass → List (Nat × Nat)
  | .alnum => [(0x30, 0x39), (0x41, 0x5a), (0x61, 0x7a)]
  | .alpha => [(0x41, 0x5a), (0x61, 0x7a)]
  | .ascii => [(0, 0x7f)]
  | .blank => [(0x9, 0x9), (0x20, 0x20)]
  | .cntrl => [(0, 0x1f), (0x7f, 0x7f)]
  | .digit => [(0x30, 0x39)]
  | .graph => [(0x21, 0x7e)]
  | .lower => [(0x61, 0x7a)]
  | .print => [(0x20, 0x7e)]
  | .punct => [(0x21, 0x2f), (0x3a, 0x40), (0x5b, 0x60), (0x7b, 0x7e)]
  | .space => [(0x9, 0xd), (0x20, 0x20)]
  | .upper => [(0x41, 0x5a)]
  | .word => [(0x30, 0x39), (0x41, 0x5a), (0x5f, 0x5f), (0x61, 0x7a)]
  | .xdigit => [(0x30, 0x39), (0x41, 0x46), (0x61, 0x66)]

def Shorthand.ascii : Shorthand → AsciiClass
  | .digit => .digit
  | .space => .space
  | .word => .word

/-- A name as it is looked up: without `is` in front, blanks, hyphens and underscores, in lower
case. -/
def looseName (name : String) : List Char :=
  let cs := name.toList
  let cs :=
    match cs with
    | a :: b :: rest => if a.toLower = 'i' && b.toLower = 's' then rest else cs
    | _ => cs
  (cs.filter fun c => c.toNat < 0x80 && c ≠ ' ' && c ≠ '_' && c ≠ '-').map Char.toLower

/-- The complaint about a property.  Three short names are those of a value. -/
def propertyComplaint (name : String) (valued : Bool) : Complaint :=
  if !valued && [['c', 'f'], ['s', 'c'], ['l', 'c']].contains (looseName name) then
    .propertyValueNotFound
  else .propertyNotFound

namespace Flags

def last (f : Flags) : Nat := if f.unicode then CharSet.lastChar else CharSet.lastOctet

def setChar (f : Flags) (l : Literal) : Except Fault Nat :=
  if f.unicode then .ok l.char.toNat
  else if l.char.toNat < 0x80 then .ok l.char.toNat
  else .error ⟨if l.octet then .invalidUtf8 else .unicodeNotAllowed, l.span, none⟩

def fold (f : Flags) (span : Span) (s : CharSet) : Except Fault CharSet :=
  if !f.caseless then .ok s
  else if !f.unicode then .ok s.foldCase
  else if s.folded || s.ranges = [] then .ok { s with folded := true }
  else .error ⟨.caseTableMissing, span, none⟩

def allow (f : Flags) (span : Span) (s : CharSet) : Except Fault CharSet :=
  if f.unicode || s.isAscii then .ok s else .error ⟨.invalidUtf8, span, none⟩

/-- The set in both cases, if case does not count, and then negated, if it has to be. -/
def close (f : Flags) (span : Span) (negated : Bool) (s : CharSet) : Except Fault CharSet := do
  let s ← f.fold span s
  f.allow span (if negated then s.complement f.last else s)

def property (f : Flags) (span : Span) (name : String) (valued : Bool) : Except Fault CharSet :=
  .error ⟨if f.unicode then propertyComplaint name valued else .unicodeNotAllowed, span, none⟩

def shorthand (f : Flags) (span : Span) (s : Shorthand) (negated : Bool) : Except Fault CharSet :=
  if f.unicode then .error ⟨.shorthandMissing, span, none⟩
  else
    let set : CharSet := ⟨s.ascii.ranges, false⟩
    f.allow span (if negated then set.complement f.last else set)

def literal (f : Flags) (l : Literal) : Except Fault Expr :=
  if !f.unicode && l.octet && 0x80 ≤ l.char.toNat then .error ⟨.invalidUtf8, l.span, none⟩
  else if !f.caseless then .ok (.chars (.one l.char))
  else if f.unicode then .error ⟨.caseTableMissing, l.span, none⟩
  else .ok (.chars (CharSet.one l.char).foldCase)

def dot (f : Flags) (span : Span) : Except Fault Expr :=
  if !f.unicode then .error ⟨.invalidUtf8, span, none⟩
  else
    let excepted : List (Nat × Nat) :=
      if f.dotAll then []
      else if f.carriage then [(0xa, 0xa), (0xd, 0xd)]
      else [(0xa, 0xa)]
    .ok (.chars ⟨CharSet.outside CharSet.lastChar excepted, false⟩)

def look (f : Flags) (a : Assertion) : Look :=
  let word (l : Look) : Look := if f.unicode then .anyScript else l
  let line (whole carriage feed : Look) : Look :=
    if !f.multiLine then whole else if f.carriage then carriage else feed
  match a with
  | .lineStart => line .start .carriageLineStart .lineStart
  | .lineEnd => line .finish .carriageLineEnd .lineEnd
  | .textStart => .start
  | .textEnd => .finish
  | .wordBoundary => word .wordBoundary
  | .noWordBoundary => word .noWordBoundary
  | .wordStart => word .wordStart
  | .wordEnd => word .wordEnd
  | .wordStartHalf => word .wordStartHalf
  | .wordEndHalf => word .wordEndHalf

end Flags

def SetOperator.apply : SetOperator → CharSet → CharSet → CharSet
  | .intersection => CharSet.inter
  | .difference => CharSet.diff
  | .symmetricDifference => CharSet.symmDiff

mutual

def SetNode.addTo (f : Flags) (set : CharSet) : SetNode → Except Fault CharSet
  | .empty _ => .ok set
  | .literal l => do
    let n ← f.setChar l
    return set.insert n n
  | .range _ least greatest => do
    let a ← f.setChar least
    let b ← f.setChar greatest
    return set.insert a b
  | .ascii span c negated => do return set.union (← f.close span negated ⟨c.ranges, false⟩)
  | .property span name valued => do return set.union (← f.property span name valued)
  | .shorthand span s negated => do return set.union (← f.shorthand span s negated)
  | .bracketed span negated inner => do
    let s ← inner.addTo f .empty
    return set.union (← f.close span negated s)
  | .union _ items => SetNode.addAll f set items
  | .binary _ operator left right => do
    let a ← left.addTo f .empty
    let b ← right.addTo f .empty
    let b ← f.fold right.span b
    let a ← f.fold left.span a
    return set.union (operator.apply a b)

def SetNode.addAll (f : Flags) (set : CharSet) : List SetNode → Except Fault CharSet
  | [] => .ok set
  | item :: items => do
    let set ← item.addTo f set
    SetNode.addAll f set items

end

mutual

/-- What a piece means where `f` holds, and the flags that hold after it. -/
def Node.meaning (f : Flags) : Node → Except Fault (Expr × Flags)
  | .empty _ => .ok (.empty, f)
  | .flags _ items => .ok (.empty, f.apply items)
  | .literal l => do return (← f.literal l, f)
  | .dot span => do return (← f.dot span, f)
  | .assertion _ a => .ok (.look (f.look a), f)
  | .property span name valued => do return (.chars (← f.property span name valued), f)
  | .shorthand span s negated => do return (.chars (← f.shorthand span s negated), f)
  | .bracketed span negated inner => do
    let s ← inner.addTo f .empty
    return (.chars (← f.close span negated s), f)
  | .repetition _ least most node => do
    let (e, f) ← node.meaning f
    return (e.repeated least most, f)
  | .group _ own node => do
    let (e, _) ← node.meaning (own.elim f f.apply)
    return (if own.isNone then .capture e else e, f)
  | .alternation _ nodes => do
    let (es, f) ← Node.meanings f nodes
    return (.oneOf es, f)
  | .concat _ nodes => do
    let (es, f) ← Node.meanings f nodes
    return (.sequence es, f)

def Node.meanings (f : Flags) : List Node → Except Fault (List Expr × Flags)
  | [] => .ok ([], f)
  | node :: nodes => do
    let (e, f) ← node.meaning f
    let (es, f) ← Node.meanings f nodes
    return (e :: es, f)

end

end GzipStage.Log.Pattern
