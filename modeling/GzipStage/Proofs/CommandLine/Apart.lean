import GzipStage.Proofs.CommandLine.Invoke

/-! Calls that do not run the stage, and what they print. -/
namespace GzipStage.CommandLine

open Log

variable {words given : List Bytes} {request : Request} {wanted : Bool} {path : Option Path}
  {p : Path} {stage : Stage} {P : Platform}

/-- The words that give a path with `--arguments`; no words if there is none. -/
def PathWords (path : Option Path) (given : List Bytes) : Prop :=
  match path with
  | none => given = []
  | some p =>
    p.bytes ≠ [] ∧ (given = [argumentsWord ++ Octet.equals :: p.bytes] ∨
      given = [argumentsWord, p.bytes] ∧ ¬ IsOption p.bytes)

/-- The words give a path, or none, and nothing else. -/
def RunWords (path : Option Path) (words : List Bytes) : Prop :=
  ∃ given rest, PathWords path given ∧ Ends rest ∧ words = given ++ rest

/-- The words ask for the schema and give a path, or none, in either order. -/
def SchemaWords (path : Option Path) (words : List Bytes) : Prop :=
  ∃ given rest, PathWords path given ∧ Ends rest ∧
    (words = schemaWord :: given ++ rest ∨ words = given ++ schemaWord :: rest)

/-! ### What the words ask for -/

theorem pathWords_joined (hp : p.bytes ≠ []) :
    PathWords (some p) [argumentsWord ++ Octet.equals :: p.bytes] :=
  ⟨hp, .inl rfl⟩

theorem pathWords_apart (hp : p.bytes ≠ []) (hoption : ¬ IsOption p.bytes) :
    PathWords (some p) [argumentsWord, p.bytes] :=
  ⟨hp, .inr ⟨rfl, hoption⟩⟩

theorem PathWords.asks (hgiven : PathWords path given) (h : Asks wanted path words request) :
    Asks wanted none (given ++ words) request := by
  cases path with
  | none =>
    obtain rfl := hgiven
    exact h
  | some p =>
    rcases hgiven with ⟨hp, rfl | ⟨rfl, hoption⟩⟩
    · exact .joins hp h
    · exact .follows hp hoption h

theorem Asks.ends (h : Asks true (some p) words request) : Ends words := by
  cases h with
  | schema hends => exact hends

theorem Asks.runWords (h : Asks true none words request) : ∃ path, RunWords path words := by
  cases h with
  | schema hends => exact ⟨none, [], _, rfl, hends, rfl⟩
  | @joins _ p words _ hp h => exact ⟨some p, _, words, pathWords_joined hp, h.ends, rfl⟩
  | @follows _ p words _ hp hoption h =>
    exact ⟨some p, _, words, pathWords_apart hp hoption, h.ends, rfl⟩

theorem Asks.schemaWord_of_path (h : Asks false (some p) words .schema) :
    ∃ rest, Ends rest ∧ words = schemaWord :: rest := by
  cases h with
  | wants h => exact ⟨_, h.ends, rfl⟩

theorem Asks.ends_of_path (h : Asks false (some p) words (.run path)) :
    Ends words ∧ path = some p := by
  cases h with
  | run hends => exact ⟨hends, rfl⟩
  | wants h => cases h.request_of_schema

theorem parse_run_iff_runWords : parse words = .ok (.run path) ↔ RunWords path words := by
  have hasks : parse words = .ok (.run path) ↔ Asks false none words (.run path) :=
    parse_iff nofun nofun
  rw [hasks]
  constructor
  · intro h
    cases h with
    | run hends => exact ⟨[], _, rfl, hends, rfl⟩
    | wants h => cases h.request_of_schema
    | joins hp h =>
      obtain ⟨hends, rfl⟩ := h.ends_of_path
      exact ⟨_, _, pathWords_joined hp, hends, rfl⟩
    | follows hp hoption h =>
      obtain ⟨hends, rfl⟩ := h.ends_of_path
      exact ⟨_, _, pathWords_apart hp hoption, hends, rfl⟩
  · rintro ⟨given, rest, hgiven, hends, rfl⟩
    exact hgiven.asks (.run hends)

theorem parse_schema_iff : parse words = .ok .schema ↔ ∃ path, SchemaWords path words := by
  have hasks : parse words = .ok .schema ↔ Asks false none words .schema := parse_iff nofun nofun
  rw [hasks]
  constructor
  · intro h
    cases h with
    | wants h =>
      obtain ⟨path, given, rest, hgiven, hends, rfl⟩ := h.runWords
      exact ⟨path, given, rest, hgiven, hends, .inl rfl⟩
    | @joins _ p _ _ hp h =>
      obtain ⟨rest, hends, rfl⟩ := h.schemaWord_of_path
      exact ⟨some p, _, rest, pathWords_joined hp, hends, .inr rfl⟩
    | @follows _ p _ _ hp hoption h =>
      obtain ⟨rest, hends, rfl⟩ := h.schemaWord_of_path
      exact ⟨some p, _, rest, pathWords_apart hp hoption, hends, .inr rfl⟩
  · rintro ⟨path, given, rest, hgiven, hends, rfl | rfl⟩
    · exact .wants (hgiven.asks (.schema hends))
    · exact hgiven.asks (.wants (.schema hends))

/-! ### What is answered -/

/-- What is printed for `--schema`, line by line. -/
def schemaLines : List String :=
  ["\x7b",
    "  \"description\": [",
    "    \"Compresses the single file passed as the `file` input with gzip\",",
    "    \"at the default level and writes it to `filename` in the tree.\",",
    "    \"The gzip header carries no file name or timestamp.\"",
    "  ],",
    "  \"schema_2\": \x7b",
    "    \"inputs\": \x7b",
    "      \"additionalProperties\": false,",
    "      \"properties\": \x7b",
    "        \"file\": \x7b",
    "          \"additionalProperties\": true,",
    "          \"type\": \"object\"",
    "        \x7d",
    "      \x7d,",
    "      \"required\": [",
    "        \"file\"",
    "      ],",
    "      \"type\": \"object\"",
    "    \x7d,",
    "    \"options\": \x7b",
    "      \"additionalProperties\": false,",
    "      \"properties\": \x7b",
    "        \"filename\": \x7b",
    "          \"description\": \"Filename for the compressed artifact\",",
    "          \"type\": \"string\"",
    "        \x7d",
    "      \x7d,",
    "      \"required\": [",
    "        \"filename\"",
    "      ]",
    "    \x7d",
    "  \x7d,",
    "  \"summary\": \"Compress a file with gzip\"",
    "\x7d"]

theorem schema_pretty : schema.pretty ++ "\n" = String.join (schemaLines.map (· ++ "\n")) := by
  -- characters are compared faster than strings
  rw [← String.toList_inj, String.toList_join, String.toList_append, Json.Value.pretty,
    String.toList_ofList, List.flatMap_map]
  simp only [String.toList_append]
  decide +kernel

theorem stageOf_ok_iff :
    stageOf words P = .ok stage ↔
      ∃ path, RunWords path words ∧ stage = ⟨path.getD defaultArgumentsPath⟩ := by
  simp only [← parse_run_iff_runWords]
  unfold stageOf
  constructor
  · intro h
    split at h
    case h_5 path hparse => exact ⟨path, hparse, (Except.ok.inj h).symm⟩
    all_goals cases h
  · rintro ⟨path, hparse, rfl⟩
    rw [hparse]

theorem stageOf_schema (h : parse words = .ok .schema) :
    stageOf words P = .error ⟨0, String.join (schemaLines.map (· ++ "\n")), ""⟩ := by
  unfold stageOf
  rw [h, schema_pretty]

/-- What is asked for is told on standard output, and what is wrong on standard error. -/
theorem stageOf_error {reply : Reply} (h : stageOf words P = .error reply) :
    reply.exit = 0 ∧ reply.stderr = "" ∨ reply.exit = 2 ∧ reply.stdout = "" := by
  unfold stageOf at h
  split at h
  case h_1 =>
    obtain rfl := Except.error.inj h
    exact .inr ⟨rfl, rfl⟩
  case h_5 => cases h
  all_goals
    obtain rfl := Except.error.inj h
    exact .inl ⟨rfl, rfl⟩

theorem invoke_of_reply {reply : Reply} (h : stageOf words P = .error reply)
    (spec : Option String) (fs : FileSystem) :
    invoke words spec fs P =
      ⟨reply.exit, reply.stdout,
        warnings (Filter.parse (spec.getD defaultSpec)).2 ++ reply.stderr, fs⟩ := by
  rw [invoke_eq, h]

/-- A call runs the stage exactly when its words give a path or none and nothing else.  Otherwise
its answer is settled by the words alone, but for the warnings about the filter, and it leaves all
files as they are.  The schema is told when it is asked for, whatever path is given with it. -/
theorem invoke_apart (words : List Bytes) (P : Platform) :
    (∀ stage, stageOf words P = .ok stage ↔
      ∃ path, RunWords path words ∧ stage = ⟨path.getD defaultArgumentsPath⟩) ∧
      ((¬ ∃ path, RunWords path words) → ∃ reply : Reply,
        (reply.exit = 0 ∧ reply.stderr = "" ∨ reply.exit = 2 ∧ reply.stdout = "") ∧
          ∀ (spec : Option String) (fs : FileSystem), invoke words spec fs P =
            ⟨reply.exit, reply.stdout,
              warnings (Filter.parse (spec.getD defaultSpec)).2 ++ reply.stderr, fs⟩) ∧
      (parse words = .ok .schema ↔ ∃ path, SchemaWords path words) ∧
      ∀ path, SchemaWords path words → (¬ ∃ path, RunWords path words) ∧
        ∀ (spec : Option String) (fs : FileSystem),
          (invoke words spec fs P).exit = 0 ∧
            (invoke words spec fs P).stdout = String.join (schemaLines.map (· ++ "\n")) := by
  refine ⟨?_, ?_, parse_schema_iff, ?_⟩
  · intro stage
    exact stageOf_ok_iff
  · intro hrun
    cases hstage : stageOf words P with
    | ok stage =>
      obtain ⟨path, hpath, -⟩ := stageOf_ok_iff.mp hstage
      exact absurd ⟨path, hpath⟩ hrun
    | error reply => exact ⟨reply, stageOf_error hstage, invoke_of_reply hstage⟩
  · intro path hwords
    have hparse : parse words = .ok .schema := parse_schema_iff.mpr ⟨path, hwords⟩
    constructor
    · rintro ⟨other, hrun⟩
      rw [parse_run_iff_runWords.mpr hrun] at hparse
      cases hparse
    · intro spec fs
      rw [invoke_of_reply (stageOf_schema hparse)]
      exact ⟨rfl, rfl⟩

/-- The schema is told before and behind a path where there is nothing, and a path that is missing
is no run. -/
theorem invoke_apart_sample :
    (invoke [schemaWord, argumentsWord, Utf8.encode "z"] (some "trace") (Stage.sample [])).stdout =
        String.join (schemaLines.map (· ++ "\n")) ∧
      (invoke [argumentsWord, Utf8.encode "z", schemaWord, dashes] none (Stage.sample [])).exit =
        0 ∧
      (invoke [argumentsWord] none (Stage.sample [])).fileSystem = Stage.sample [] := by
  have hplain : ¬ IsOption (Path.ofString "z").bytes := by
    rintro ⟨b, rest, heq⟩
    cases heq
  have hgiven : PathWords (some (.ofString "z")) [argumentsWord, Utf8.encode "z"] := by
    apply pathWords_apart _ hplain
    decide
  refine ⟨?_, ?_, ?_⟩
  · obtain ⟨-, -, -, hschema⟩ := invoke_apart [schemaWord, argumentsWord, Utf8.encode "z"] {}
    exact ((hschema _ ⟨_, [], hgiven, .inl rfl, .inl rfl⟩).2 _ _).2
  · obtain ⟨-, -, -, hschema⟩ :=
      invoke_apart [argumentsWord, Utf8.encode "z", schemaWord, dashes] {}
    exact ((hschema _ ⟨_, [dashes], hgiven, .inr rfl, .inr rfl⟩).2 _ _).1
  · obtain ⟨hstage, hreply, -, -⟩ := invoke_apart [argumentsWord] {}
    have hrun : ¬ ∃ path, RunWords path [argumentsWord] := by
      rintro ⟨path, hwords⟩
      have h := (hstage _).mpr ⟨path, hwords, rfl⟩
      cases h
    obtain ⟨reply, -, hinvoke⟩ := hreply hrun
    rw [hinvoke]

end GzipStage.CommandLine
