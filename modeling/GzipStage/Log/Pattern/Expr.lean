import GzipStage.Log.Pattern.CharSet

namespace GzipStage.Log.Pattern

/-- What has to hold at a place.  For the words of any script no rule is at hand. -/
inductive Look where
  | start
  | finish
  /-- At the start, or behind a line feed. -/
  | lineStart
  | lineEnd
  /-- At the start, behind a line feed, or behind a carriage return without one. -/
  | carriageLineStart
  | carriageLineEnd
  | wordBoundary
  | noWordBoundary
  | wordStart
  | wordEnd
  | wordStartHalf
  | wordEndHalf
  | anyScript
  deriving DecidableEq

namespace Look

/-- Whether a character belongs to a word: a letter or digit below U+0080, or an underscore. -/
def isWordChar (c : Char) : Bool := c.isAlphanum || c = '_'

/-- Whether an assertion holds between two characters, of which one is missing at each end. -/
def holds (before after : Option Char) : Look → Bool
  | start => before.isNone
  | finish => after.isNone
  | lineStart => before.isNone || before = some '\n'
  | lineEnd => after.isNone || after = some '\n'
  | carriageLineStart =>
    before.isNone || before = some '\n' || (before = some '\r' && after ≠ some '\n')
  | carriageLineEnd =>
    after.isNone || after = some '\r' || (after = some '\n' && before ≠ some '\r')
  | wordBoundary => before.any isWordChar != after.any isWordChar
  | noWordBoundary => before.any isWordChar == after.any isWordChar
  | wordStart => !before.any isWordChar && after.any isWordChar
  | wordEnd => before.any isWordChar && !after.any isWordChar
  | wordStartHalf => !before.any isWordChar
  | wordEndHalf => !after.any isWordChar
  | anyScript => false

end Look

inductive Expr where
  | empty
  | chars (s : CharSet)
  | look (l : Look)
  | seq (first second : Expr)
  | either (first second : Expr)
  | capture (e : Expr)
  /-- At least `least` times and, if there is a limit, at most `most` times. -/
  | times (e : Expr) (least : Nat) (most : Option Nat)
  deriving DecidableEq

namespace Expr

def takesNothing : Expr → Bool
  | empty => true
  | chars _ => false
  | look _ => true
  | seq a b => a.takesNothing && b.takesNothing
  | either a b => a.takesNothing && b.takesNothing
  | capture e => e.takesNothing
  | times e _ _ => e.takesNothing

def takesSomething : Expr → Bool
  | empty => false
  | chars s => s.ranges ≠ []
  | look _ => false
  | seq a b => a.takesSomething || b.takesSomething
  | either a b => a.takesSomething && b.takesSomething
  | capture e => e.takesSomething
  | times e least _ => 0 < least && e.takesSomething

def needsScripts : Expr → Bool
  | look l => l = .anyScript
  | seq a b => a.needsScripts || b.needsScripts
  | either a b => a.needsScripts || b.needsScripts
  | capture e => e.needsScripts
  | times e _ _ => e.needsScripts
  | _ => false

/-- An expression some times.  To match the empty text once is to match it any number of
times. -/
def repeated (e : Expr) (least : Nat) (most : Option Nat) : Expr :=
  let (least, most) :=
    if e.takesNothing then (min least 1, some (min (most.getD 1) 1)) else (least, most)
  if most = some 0 then empty
  else if least = 1 && most = some 1 then e
  else times e least most

def sequence : List Expr → Expr
  | [] => empty
  | [e] => e
  | e :: es => if e = empty then sequence es else
    match sequence es with
    | empty => e
    | rest => seq e rest

def charSet? : Expr → Option CharSet
  | chars s => some s
  | _ => none

/-- One of several expressions.  When each takes one character, together they are a set. -/
def oneOf (es : List Expr) : Expr :=
  match es.mapM charSet? with
  | some sets => chars (sets.foldl CharSet.union .empty)
  | none =>
    match es.reverse with
    | [] => chars .empty
    | last :: before => before.foldl (fun rest e => either e rest) last

end Expr

end GzipStage.Log.Pattern
