import GzipStage.Log.Pattern
import GzipStage.Log.Record
import GzipStage.Text.Space

/-! Which records are shown: the directive with the longest matching target decides, and a
pattern selects among their texts. -/
namespace GzipStage.Log

/-- The records of targets that begin with `target` are shown up to `detail`. -/
structure Directive where
  target : Option String
  detail : Nat
  deriving DecidableEq

/-- A filter: directives, no two for one target, and a pattern for the texts. -/
structure Filter where
  directives : List Directive
  pattern : Option Pattern

namespace Filter

def detail? (s : List Char) : Option Nat :=
  [("off", 0), ("error", 1), ("warn", 2), ("info", 3), ("debug", 4), ("trace", 5)].lookup
    (String.ofList (s.map Char.toLower))

def maxDetail : Nat := 5

def complaint (part : List Char) : String := "invalid logging spec '" ++ String.ofList part ++ "'"

def readDirective (s : List Char) : Except String Directive :=
  match splitAtChar '=' s with
  | [part] =>
    match detail? part with
    | some d => .ok ⟨none, d⟩
    | none => .ok ⟨some (String.ofList part), maxDetail⟩
  | [target, level] =>
    let level := trimSpace level
    if level = [] then .ok ⟨some (String.ofList target), maxDetail⟩
    else match detail? level with
      | some d => .ok ⟨some (String.ofList target), d⟩
      | none => .error (complaint level)
  | _ => .error (complaint s)

/-- Adds a directive: in the place of the one for the same target, or behind all others. -/
def insert (ds : List Directive) (d : Directive) : List Directive :=
  if ds.any (·.target = d.target) then ds.map fun e => if e.target = d.target then d else e
  else ds ++ [d]

/-- Reads directives; a later one for the same target replaces an earlier one. -/
def readDirectives (s : List Char) : List Directive × List String :=
  let parts := ((splitAtChar ',' s).map trimSpace).filter (· ≠ [])
  parts.foldl (fun (ds, errors) part =>
    match readDirective part with
    | .ok d => (insert ds d, errors)
    | .error e => (ds, errors ++ [e])) ([], [])

def parse (spec : String) : Filter × List String :=
  match splitAtChar '/' spec.toList with
  | [ds] =>
    let (ds, errors) := readDirectives ds
    (⟨ds, none⟩, errors)
  | [ds, pattern] =>
    let (ds, errors) := readDirectives ds
    let text := String.ofList pattern
    match Pattern.parse text with
    | .ok p => (⟨ds, some p⟩, errors)
    | .error e => (⟨ds, none⟩, errors ++ ["invalid regex filter - " ++ e.report text])
  | _ => (⟨[], none⟩, [complaint spec.toList ++ " (too many '/'s)"])

def Directive.matches (d : Directive) (target : String) : Bool :=
  match d.target with
  | none => true
  | some t => t.toList.isPrefixOf target.toList

def Directive.length (d : Directive) : Nat := (d.target.getD "").utf8ByteSize

/-- The detail shown for a target: that of the longest matching directive. -/
def detailFor (directives : List Directive) (target : String) : Nat :=
  let found := directives.foldl (fun (best : Option Directive) d =>
    if Directive.matches d target then
      match best with
      | none => some d
      | some b => if Directive.length b ≤ Directive.length d then some d else some b
    else best) none
  (found.map (·.detail)).getD 0

def shows (f : Filter) (r : Record) : Bool :=
  let ds := if f.directives = [] then [⟨none, 1⟩] else f.directives
  r.level.detail ≤ detailFor ds r.target &&
    (match f.pattern with
      | none => true
      | some p => p.matchesPart r.text)

end Filter

def defaultSpec : String := "warn"

end GzipStage.Log
