import GzipStage.Path

/-! The words of a command line. A value of `--arguments` is looked at when the next known option
comes or the words end. -/
namespace GzipStage.CommandLine

inductive UsageError where
  /-- A word that is no option, or no known one. -/
  | unexpectedWord (word : String)
  /-- A value for an option that takes none. -/
  | unexpectedValue (value option : String)
  /-- An option for the second time. -/
  | repeated (option : String)
  /-- An option without the value that it needs. -/
  | missingValue (option : String)
  deriving DecidableEq

def UsageError.message : UsageError → String
  | .unexpectedWord word => "error: unexpected argument '" ++ word ++ "' found"
  | .unexpectedValue value option =>
    "error: unexpected value '" ++ value ++ "' for '" ++ option ++
      "' found; no more were expected"
  | .repeated option => "error: the argument '" ++ option ++ "' cannot be used multiple times"
  | .missingValue option =>
    "error: a value is required for '" ++ option ++ "' but none was supplied"

inductive Request where
  | help
  | version
  | schema
  | run (arguments : Option Path)
  deriving DecidableEq

def argumentsOption : String := "--arguments <ARGUMENTS>"

/-- What has been read: whether the schema is wanted, the arguments path, and the `--arguments`
whose value has not been looked at, with that value if it has come. -/
structure State where
  schema : Bool := false
  path : Option Path := none
  pending : Option (Option Bytes) := none

def State.setPath (state : State) (value : Bytes) : Except UsageError State :=
  if state.path.isSome then .error (.repeated argumentsOption)
  else if value = [] then .error (.missingValue argumentsOption)
  else .ok { state with path := some ⟨value⟩ }

def State.settle (state : State) : Except UsageError State :=
  match state.pending with
  | none => .ok state
  | some none => .error (.missingValue argumentsOption)
  | some (some value) => { state with pending := none }.setPath value

inductive Step where
  | more (state : State)
  | done (request : Request)

inductive Flag where
  | schema
  | help
  | version

def State.meet (state : State) (flag : Flag) : Except UsageError Step := do
  let state ← state.settle
  match flag with
  | .help => .ok (.done .help)
  | .version => .ok (.done .version)
  | .schema =>
    if state.schema then .error (.repeated "--schema")
    else .ok (.more { state with schema := true })

def flagOf? (name : Bytes) : Option (Flag × String) :=
  if name = Utf8.encode "schema" then some (.schema, "--schema")
  else if name = Utf8.encode "help" then some (.help, "--help")
  else if name = Utf8.encode "version" then some (.version, "--version")
  else none

/-- A word that begins with two dashes: its name, and the value after an equals sign. -/
def splitLong (word : Bytes) : Bytes × Option Bytes :=
  let name := word.takeWhile (· ≠ Octet.equals)
  (name, if name.length < word.length then some (word.drop (name.length + 1)) else none)

def State.long (state : State) (word : Bytes) : Except UsageError Step :=
  let (name, value) := splitLong word
  match flagOf? name, value with
  | some (flag, _), none => state.meet flag
  | some (_, option), some value => .error (.unexpectedValue (Utf8.lossy value) option)
  | none, _ =>
    if name = Utf8.encode "arguments" then do
      let state ← state.settle
      match value with
      | some value => return .more (← state.setPath value)
      | none => return .more { state with pending := some none }
    else .error (.unexpectedWord ("--" ++ Utf8.lossy name))

def flagOfLetter? (b : UInt8) : Option Flag :=
  if b = Octet.ofChar 'h' then some .help
  else if b = Octet.ofChar 'V' then some .version
  else none

/-- The text of the unknown letter that octets begin with.  Octets that are no text stand for
one letter. -/
def letterText (word : Bytes) : String :=
  match Utf8.pieces word with
  | some c :: _ => String.ofList [c]
  | _ => Utf8.lossy word

def State.short (state : State) (word : Bytes) : Except UsageError Step :=
  match word.head?.bind flagOfLetter? with
  | some flag => state.meet flag
  | none => .error (.unexpectedWord ("-" ++ letterText word))

def State.plain (state : State) (word : Bytes) : Except UsageError Step :=
  match state.pending with
  | some none => .ok (.more { state with pending := some (some word) })
  | _ => .error (.unexpectedWord (Utf8.lossy word))

def State.words (state : State) : List Bytes → Except UsageError Request
  | [] => do
    let state ← state.settle
    return if state.schema then .schema else .run state.path
  | word :: rest =>
    if word = [Octet.minus, Octet.minus] then
      match rest with
      | word :: _ => .error (.unexpectedWord (Utf8.lossy word))
      | [] => do
        let state ← state.settle
        return if state.schema then .schema else .run state.path
    else do
      let step ←
        match word with
        | a :: b :: word =>
          if a = Octet.minus then
            if b = Octet.minus then state.long word else state.short (b :: word)
          else state.plain (a :: b :: word)
        | word => state.plain word
      match step with
      | .done request => .ok request
      | .more state => words state rest

def parse (words : List Bytes) : Except UsageError Request := State.words {} words

end GzipStage.CommandLine
