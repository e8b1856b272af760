import GzipStage.Log.Pattern.Place
import GzipStage.Text.Space

/-! Why a pattern is refused. -/
namespace GzipStage.Log.Pattern

inductive Complaint where
  | backreference
  | caseTableMissing
  | classEscape
  | classRangeBound
  | classRangeOrder
  | classUnclosed
  | countMissing
  | countRange
  | countUnclosed
  | decimalInvalid
  | escapeEnd
  | escapeUnknown
  | flagAgain
  | flagEnd
  | flagUnknown
  | groupUnclosed
  | groupUnopened
  | hexDigit
  | hexEmpty
  | hexInvalid
  | invalidUtf8
  | lookAround
  | minusAgain
  | minusDangling
  | nameAgain
  | nameCharacter
  | nameEmpty
  | nameEnd
  | nesting (limit : Nat)
  | propertyForm
  | propertyNotFound
  | propertyValueNotFound
  | repetitionMissing
  | shorthandMissing
  | unicodeNotAllowed
  | wordBoundaryEnd
  | wordBoundaryUnclosed
  | wordBoundaryUnknown
  deriving DecidableEq

def Complaint.message : Complaint → String
  | .backreference => "backreferences are not supported"
  | .caseTableMissing =>
    "Unicode-aware case insensitivity matching is not available " ++
      "(make sure the unicode-case feature is enabled)"
  | .classEscape => "invalid escape sequence found in character class"
  | .classRangeBound => "invalid range boundary, must be a literal"
  | .classRangeOrder => "invalid character class range, the start must be <= the end"
  | .classUnclosed => "unclosed character class"
  | .countMissing => "repetition quantifier expects a valid decimal"
  | .countRange => "invalid repetition count range, the start must be <= the end"
  | .countUnclosed => "unclosed counted repetition"
  | .decimalInvalid => "decimal literal invalid"
  | .escapeEnd => "incomplete escape sequence, reached end of pattern prematurely"
  | .escapeUnknown => "unrecognized escape sequence"
  | .flagAgain => "duplicate flag"
  | .flagEnd => "expected flag but got end of regex"
  | .flagUnknown => "unrecognized flag"
  | .groupUnclosed => "unclosed group"
  | .groupUnopened => "unopened group"
  | .hexDigit => "invalid hexadecimal digit"
  | .hexEmpty => "hexadecimal literal empty"
  | .hexInvalid => "hexadecimal literal is not a Unicode scalar value"
  | .invalidUtf8 => "pattern can match invalid UTF-8"
  | .lookAround => "look-around, including look-ahead and look-behind, is not supported"
  | .minusAgain => "flag negation operator repeated"
  | .minusDangling => "dangling flag negation operator"
  | .nameAgain => "duplicate capture group name"
  | .nameCharacter => "invalid capture group character"
  | .nameEmpty => "empty capture group name"
  | .nameEnd => "unclosed capture group name"
  | .nesting limit =>
    "exceed the maximum number of nested parentheses/brackets (" ++
      String.ofList (Nat.toDigits 10 limit) ++ ")"
  | .propertyForm => "invalid Unicode character class"
  | .propertyNotFound => "Unicode property not found"
  | .propertyValueNotFound => "Unicode property value not found"
  | .repetitionMissing => "repetition operator missing expression"
  | .shorthandMissing =>
    "Unicode-aware Perl class not found (make sure the unicode-perl feature is enabled)"
  | .unicodeNotAllowed => "Unicode not allowed here"
  | .wordBoundaryEnd =>
    "found either the beginning of a special word boundary or a bounded repetition on a \\b " ++
      "with an opening brace, but no closing brace"
  | .wordBoundaryUnclosed =>
    "special word boundary assertion is either unclosed or contains an invalid character"
  | .wordBoundaryUnknown =>
    "unrecognized special word boundary assertion, valid choices are: start, end, start-half " ++
      "or end-half"

/-- A complaint about a stretch of the text, which may clash with an earlier one. -/
structure Fault where
  complaint : Complaint
  span : Span
  earlier : Option Span := none
  deriving DecidableEq

namespace Fault

def spans (f : Fault) : List Span :=
  match f.earlier with
  | none => [f.span]
  | some e => if e.before f.span then [e, f.span] else [f.span, e]

/-- The lines of a text.  A line break ends a line, so a text that ends with one has no further
line; a carriage return before it is left out. -/
def linesOf (text : List Char) : List (List Char) :=
  let parts := splitAtChar '\n' text
  (parts.dropLast.map fun line =>
    if line.getLast? = some '\r' then line.dropLast else line) ++
    (parts.getLast?.toList.filter (· ≠ []))

/-- The carets below a line, behind `margin` blanks, or nothing if there is nothing to show. -/
def carets (margin : Nat) (spans : List Span) : List Char :=
  if spans = [] then []
  else
    let marks := spans.foldl (fun (out : List Char) s =>
      out ++ List.replicate (s.start.column - 1 - out.length) ' ' ++
        List.replicate (max 1 (s.stop.column - s.start.column)) '^') []
    List.replicate margin ' ' ++ marks ++ ['\n']

def digits (n : Nat) : List Char := Nat.toDigits 10 n

def rule : List Char := List.replicate 79 '~' ++ ['\n']

def describe (s : Span) : String :=
  "on line " ++ String.ofList (digits s.start.line) ++ " (column " ++
    String.ofList (digits s.start.column) ++ ") through line " ++
    String.ofList (digits s.stop.line) ++ " (column " ++
    String.ofList (digits (s.stop.column - 1)) ++ ")\n"

/-- The pattern with the carets below it.  `width` is the width of the line numbers, zero if
there are none. -/
def noted (f : Fault) (width : Nat) (text : List Char) : List Char :=
  (linesOf text).zipIdx.flatMap fun (line, i) =>
    let number := digits (i + 1)
    let margin := if width = 0 then 4 else width + 2
    let front :=
      if width = 0 then List.replicate 4 ' '
      else List.replicate (width - number.length) ' ' ++ number ++ [':', ' ']
    front ++ line ++ ['\n'] ++
      carets margin (f.spans.filter fun s => s.onOneLine && s.start.line = i + 1)

def report (f : Fault) (text : String) : String :=
  let cs := text.toList
  let body :=
    if cs.contains '\n' then
      let width := (digits (splitAtChar '\n' cs).length).length
      String.ofList (rule ++ f.noted width cs ++ rule) ++
        String.join ((f.spans.filter fun s => !s.onOneLine).map describe)
    else String.ofList (f.noted 0 cs)
  "regex parse error:\n" ++ body ++ "error: " ++ f.complaint.message

end Fault

end GzipStage.Log.Pattern
