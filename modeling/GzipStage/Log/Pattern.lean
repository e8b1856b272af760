import GzipStage.Log.Pattern.Cost
import GzipStage.Log.Pattern.Match
import GzipStage.Log.Pattern.Meaning
import GzipStage.Log.Pattern.Read

namespace GzipStage.Log

structure Pattern where
  expr : Pattern.Expr
  deriving DecidableEq

namespace Pattern

inductive Refusal where
  /-- Something is wrong with the text. -/
  | fault (f : Fault)
  /-- Words of any script cannot be told. -/
  | noScripts
  /-- The automaton takes too much room. -/
  | tooLarge

def Refusal.report (text : String) : Refusal → String
  | .fault f => f.report text
  | .noScripts => "error building NFA"
  | .tooLarge =>
    "Compiled regex exceeds size limit of " ++ String.ofList (Nat.toDigits 10 roomLimit) ++
      " bytes."

def parse (text : String) : Except Refusal Pattern :=
  match readNode text with
  | .error f => .error (.fault f)
  | .ok node =>
    match node.meaning {} with
    | .error f => .error (.fault f)
    | .ok (e, _) =>
      if e.isTooLarge false then .error .tooLarge
      else if e.needsScripts then .error .noScripts
      else if e.isTooLarge true then .error .tooLarge
      else .ok ⟨e⟩

def matchesPart (p : Pattern) (text : String) : Bool := p.expr.matchesPart text

end Pattern

end GzipStage.Log
