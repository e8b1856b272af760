import GzipStage.CommandLine.Parse
import GzipStage.Proofs.Steps
import Mathlib.Data.List.TakeWhile
import Mathlib.Tactic

/-! Which words ask for the schema or for a run. -/
namespace GzipStage.CommandLine

variable {state settled : State} {word name value : Bytes} {words : List Bytes} {taken : Step}
  {request : Request} {schema : Bool} {path : Option Path} {p : Path}

def dashes : Bytes := [Octet.minus, Octet.minus]

def argumentsWord : Bytes := dashes ++ Utf8.encode "arguments"

def schemaWord : Bytes := dashes ++ Utf8.encode "schema"

def IsOption (word : Bytes) : Prop := ∃ b rest, word = Octet.minus :: b :: rest

/-- The options end with the words, or with two dashes and nothing behind them. -/
def Ends (words : List Bytes) : Prop := words = [] ∨ words = [dashes]

/-- The words give a path with `--arguments`, and nothing else.  There is no empty path, and a
path in a word of its own must not look like an option. -/
def Gives (words : List Bytes) (p : Path) : Prop :=
  p.bytes ≠ [] ∧ ∃ rest, Ends rest ∧
    (words = (argumentsWord ++ Octet.equals :: p.bytes) :: rest ∨
      words = argumentsWord :: p.bytes :: rest ∧ ¬ IsOption p.bytes)

/-- What words ask for when a schema is wanted already or not, and a path has been given already
or not. -/
inductive Asks : Bool → Option Path → List Bytes → Request → Prop
  | run {path : Option Path} {words : List Bytes} (hends : Ends words) :
      Asks false path words (.run path)
  | schema {path : Option Path} {words : List Bytes} (hends : Ends words) :
      Asks true path words .schema
  | wants {path : Option Path} {words : List Bytes} {request : Request}
      (h : Asks true path words request) : Asks false path (schemaWord :: words) request
  | joins {schema : Bool} {p : Path} {words : List Bytes} {request : Request} (hp : p.bytes ≠ [])
      (h : Asks schema (some p) words request) :
      Asks schema none ((argumentsWord ++ Octet.equals :: p.bytes) :: words) request
  | follows {schema : Bool} {p : Path} {words : List Bytes} {request : Request} (hp : p.bytes ≠ [])
      (hoption : ¬ IsOption p.bytes) (h : Asks schema (some p) words request) :
      Asks schema none (argumentsWord :: p.bytes :: words) request

/-! ### One word -/

def State.meetWord (state : State) (word : Bytes) : Except UsageError Step :=
  match word with
  | a :: b :: word =>
    if a = Octet.minus then
      if b = Octet.minus then state.long word else state.short (b :: word)
    else state.plain (a :: b :: word)
  | word => state.plain word

theorem words_cons (hword : word ≠ dashes) :
    state.words (word :: words) = state.meetWord word >>= fun taken =>
      match taken with
      | .done request => .ok request
      | .more state => state.words words := by
  rw [State.words.eq_def]
  dsimp only
  rw [if_neg (show ¬ word = [Octet.minus, Octet.minus] from hword)]
  rcases word with _ | ⟨a, _ | ⟨b, word⟩⟩
  · rfl
  · rfl
  · dsimp only [State.meetWord]
    split_ifs <;> rfl

theorem meetWord_of_not_option (hword : ¬ IsOption word) :
    state.meetWord word = state.plain word := by
  unfold State.meetWord
  split
  next a b rest =>
    rw [if_neg]
    rintro rfl
    exact hword ⟨b, rest, rfl⟩
  next => rfl

theorem splitLong_self (hmem : Octet.equals ∉ word) : splitLong word = (word, none) := by
  have htake : word.takeWhile (· ≠ Octet.equals) = word := by
    apply List.takeWhile_eq_self_iff.mpr
    intro b hb
    exact decide_eq_true (ne_of_mem_of_not_mem hb hmem)
  unfold splitLong
  dsimp only
  rw [htake, if_neg (lt_irrefl _)]

theorem splitLong_append (hmem : Octet.equals ∉ name) (value : Bytes) :
    splitLong (name ++ Octet.equals :: value) = (name, some value) := by
  have htake : (name ++ Octet.equals :: value).takeWhile (· ≠ Octet.equals) = name := by
    rw [List.takeWhile_append_of_pos]
    · simp
    · intro b hb
      exact decide_eq_true (ne_of_mem_of_not_mem hb hmem)
  unfold splitLong
  dsimp only
  rw [htake, if_pos (by simp)]
  simp

inductive Does (state : State) : Bytes → Step → Prop
  | answers {word : Bytes} {request : Request} (h : request = .help ∨ request = .version) :
      Does state word (.done request)
  | asks {settled : State} (h : state.settle = .ok settled) (hschema : settled.schema = false) :
      Does state schemaWord (.more { settled with schema := true })
  | opens {settled : State} (h : state.settle = .ok settled) :
      Does state argumentsWord (.more { settled with pending := some none })
  | joins {settled next : State} {value : Bytes} (h : state.settle = .ok settled)
      (hpath : settled.setPath value = .ok next) :
      Does state (argumentsWord ++ Octet.equals :: value) (.more next)
  | fills {word : Bytes} (hpending : state.pending = some none) (hword : ¬ IsOption word) :
      Does state word (.more { state with pending := some (some word) })

theorem meet_does {flag : Flag} (hflag : flag = .schema → word = schemaWord)
    (h : state.meet flag = .ok taken) : Does state word taken := by
  unfold State.meet at h
  obtain ⟨settled, hsettled, h⟩ := bind_ok_iff.mp h
  cases flag with
  | schema =>
    dsimp only at h
    split_ifs at h with hschema
    rw [Bool.not_eq_true] at hschema
    obtain rfl := hflag rfl
    obtain rfl := Except.ok.inj h
    exact .asks hsettled hschema
  | help =>
    obtain rfl := Except.ok.inj h
    exact .answers (.inl rfl)
  | version =>
    obtain rfl := Except.ok.inj h
    exact .answers (.inr rfl)

theorem flagOf?_schema {option : String} (h : flagOf? name = some (.schema, option)) :
    name = Utf8.encode "schema" := by
  unfold flagOf? at h
  split_ifs at h with hschema
  · exact hschema
  · cases h
  · cases h

theorem flagOfLetter?_ne_schema (b : UInt8) : flagOfLetter? b ≠ some .schema := by
  unfold flagOfLetter?
  split_ifs <;> exact nofun

theorem plain_does (hword : ¬ IsOption word) (h : state.plain word = .ok taken) :
    Does state word taken := by
  unfold State.plain at h
  split at h
  next hpending =>
    obtain rfl := Except.ok.inj h
    exact .fills hpending hword
  next => cases h

theorem long_does (h : state.long word = .ok taken) : Does state (dashes ++ word) taken := by
  unfold State.long at h
  by_cases hmem : Octet.equals ∈ word
  · obtain ⟨name, value, rfl, hname⟩ := List.eq_append_cons_of_mem hmem
    rw [splitLong_append hname] at h
    dsimp only at h
    split at h
    next heq => cases heq
    next => cases h
    next =>
      split_ifs at h with harguments
      obtain ⟨settled, hsettled, h⟩ := bind_ok_iff.mp h
      obtain ⟨next, hnext, h⟩ := bind_ok_iff.mp h
      obtain rfl := Except.ok.inj h
      rw [harguments, ← List.append_assoc]
      exact .joins hsettled hnext
  · rw [splitLong_self hmem] at h
    dsimp only at h
    split at h
    next flag option hflag _ =>
      refine meet_does (fun hschema => ?_) h
      subst hschema
      exact congrArg (dashes ++ ·) (flagOf?_schema hflag)
    next heq => cases heq
    next =>
      split_ifs at h with harguments
      obtain ⟨settled, hsettled, h⟩ := bind_ok_iff.mp h
      obtain rfl := Except.ok.inj h
      rw [harguments]
      exact .opens hsettled

theorem meetWord_does (h : state.meetWord word = .ok taken) : Does state word taken := by
  by_cases hword : IsOption word
  · obtain ⟨b, rest, rfl⟩ := hword
    unfold State.meetWord at h
    dsimp only at h
    rw [if_pos rfl] at h
    split_ifs at h with hb
    · rw [hb]
      exact long_does h
    · unfold State.short at h
      split at h
      next flag hflag =>
        refine meet_does (fun hschema => ?_) h
        exact absurd (hschema ▸ hflag) (flagOfLetter?_ne_schema b)
      next => cases h
  · rw [meetWord_of_not_option hword] at h
    exact plain_does hword h

/-! ### All words -/

theorem setPath_ok_iff {next : State} :
    state.setPath value = .ok next ↔
      state.path = none ∧ value ≠ [] ∧ next = { state with path := some ⟨value⟩ } := by
  unfold State.setPath
  split_ifs with hpath hvalue
  · rw [Option.isSome_iff_ne_none] at hpath
    exact ⟨nofun, fun h => absurd h.1 hpath⟩
  · exact ⟨nofun, fun h => absurd hvalue h.2.1⟩
  · rw [Option.not_isSome_iff_eq_none] at hpath
    constructor
    · intro h
      exact ⟨hpath, hvalue, (Except.ok.inj h).symm⟩
    · rintro ⟨-, -, rfl⟩
      rfl

/-- Settling keeps a schema that is wanted, and leaves no value behind: there was none, or it is
the path now. -/
theorem settle_ok_iff :
    state.settle = .ok settled ↔
      state.pending = none ∧ settled = state ∨
        ∃ value, state.pending = some (some value) ∧ state.path = none ∧ value ≠ [] ∧
          settled = ⟨state.schema, some ⟨value⟩, none⟩ := by
  obtain ⟨schema, path, pending⟩ := state
  unfold State.settle
  rcases pending with _ | _ | value
  · constructor
    · intro h
      exact .inl ⟨rfl, (Except.ok.inj h).symm⟩
    · rintro (⟨-, rfl⟩ | ⟨value, hvalue, -⟩)
      · rfl
      · cases hvalue
  · exact ⟨nofun, by simp⟩
  · simp [setPath_ok_iff]

theorem settle_self (hpending : state.pending = none) : state.settle = .ok state :=
  settle_ok_iff.mpr (.inl ⟨hpending, rfl⟩)

theorem pending_of_settle (h : state.settle = .ok settled) : settled.pending = none := by
  rcases settle_ok_iff.mp h with ⟨hpending, rfl⟩ | ⟨value, -, -, -, rfl⟩
  · exact hpending
  · rfl

theorem settle_pending (hp : p.bytes ≠ []) :
    (⟨schema, none, some (some p.bytes)⟩ : State).settle = .ok ⟨schema, some p, none⟩ :=
  settle_ok_iff.mpr (.inr ⟨p.bytes, rfl, rfl, hp, rfl⟩)

theorem words_of_ends (hends : Ends words) :
    state.words words = state.settle >>= fun settled =>
      .ok (if settled.schema then .schema else .run settled.path) := by
  rcases hends with rfl | rfl <;> rfl

/-! ### What is read asks for the request -/

/-- From a state, words lead to a request: they ask for it, once the value has been looked at that
has come or that is the next word. -/
inductive Leads (request : Request) : State → List Bytes → Prop
  | settles {state settled : State} {words : List Bytes} (h : state.settle = .ok settled)
      (hasks : Asks settled.schema settled.path words request) : Leads request state words
  | fills {state settled : State} {value : Bytes} {words : List Bytes}
      (hpending : state.pending = some none) (hvalue : ¬ IsOption value)
      (h : ({ state with pending := some (some value) } : State).settle = .ok settled)
      (hasks : Asks settled.schema settled.path words request) :
      Leads request state (value :: words)

theorem leads_of_ends (hends : Ends words) (h : state.words words = .ok request) :
    Leads request state words := by
  rw [words_of_ends hends] at h
  obtain ⟨settled, hsettled, h⟩ := bind_ok_iff.mp h
  obtain ⟨schema, path, pending⟩ := settled
  obtain rfl := Except.ok.inj h
  cases schema with
  | false => exact .settles hsettled (.run hends)
  | true => exact .settles hsettled (.schema hends)

/-- From a state in which no value is awaited, what leads to a request asks for it. -/
theorem Leads.asks (h : Leads request state words) (hpending : state.pending = none) :
    Asks state.schema state.path words request := by
  cases h with
  | settles hsettled hasks =>
    rw [settle_self hpending] at hsettled
    obtain rfl := Except.ok.inj hsettled
    exact hasks
  | fills hawaited =>
    rw [hpending] at hawaited
    cases hawaited

theorem Does.leads {next : State} (hdoes : Does state word (.more next))
    (h : Leads request next words) : Leads request state (word :: words) := by
  cases hdoes with
  | @asks settled hsettled hschema =>
    have hpending : settled.pending = none := pending_of_settle hsettled
    refine .settles hsettled ?_
    rw [hschema]
    exact .wants (h.asks hpending)
  | @opens settled hsettled =>
    cases h with
    | settles hawaited => cases hawaited
    | fills _ hoption hgiven hasks =>
      rcases settle_ok_iff.mp hgiven with ⟨hpending, -⟩ | ⟨value, hvalue, hnone, hempty, rfl⟩
      · cases hpending
      · obtain rfl := Option.some.inj (Option.some.inj hvalue)
        dsimp only at hnone
        refine .settles hsettled ?_
        rw [hnone]
        exact Asks.follows hempty hoption hasks
  | @joins settled next value hsettled hpath =>
    obtain ⟨hnone, hempty, rfl⟩ := setPath_ok_iff.mp hpath
    have hpending : settled.pending = none := pending_of_settle hsettled
    refine .settles hsettled ?_
    rw [hnone]
    exact Asks.joins hempty (h.asks hpending)
  | fills hpending hword =>
    cases h with
    | settles hsettled hasks => exact .fills hpending hword hsettled hasks
    | fills hawaited => cases hawaited

/-- Words that are not refused are answered with help or the version, or ask for the request. -/
theorem leads_of_words (h : state.words words = .ok request) :
    (request = .help ∨ request = .version) ∨ Leads request state words := by
  induction words generalizing state with
  | nil => exact .inr (leads_of_ends (.inl rfl) h)
  | cons word words ih =>
    by_cases hword : word = dashes
    · subst hword
      cases words with
      | nil => exact .inr (leads_of_ends (.inr rfl) h)
      | cons word words => cases h
    · rw [words_cons hword] at h
      obtain ⟨taken, htaken, h⟩ := bind_ok_iff.mp h
      have hdoes := meetWord_does htaken
      cases taken with
      | more next => exact (ih h).imp_right hdoes.leads
      | done answer =>
        obtain rfl := Except.ok.inj h
        cases hdoes with
        | answers hanswer => exact .inl hanswer

/-! ### What asks for a request is read so -/

theorem meetWord_schema :
    state.meetWord schemaWord = state.settle >>= fun settled =>
      if settled.schema then .error (.repeated "--schema")
      else .ok (.more { settled with schema := true }) := rfl

theorem meetWord_arguments :
    state.meetWord argumentsWord = state.settle >>= fun settled =>
      .ok (.more { settled with pending := some none }) := rfl

theorem meetWord_joined (value : Bytes) :
    state.meetWord (argumentsWord ++ Octet.equals :: value) = state.settle >>= fun settled =>
      settled.setPath value >>= fun next => .ok (.more next) := by
  change state.long (Utf8.encode "arguments" ++ Octet.equals :: value) = _
  unfold State.long
  rw [splitLong_append (by decide)]
  rfl

theorem words_of_asks (hasks : Asks schema path words request)
    (hsettle : state.settle = .ok ⟨schema, path, none⟩) : state.words words = .ok request := by
  induction hasks generalizing state with
  | run hends =>
    rw [words_of_ends hends, hsettle]
    rfl
  | schema hends =>
    rw [words_of_ends hends, hsettle]
    rfl
  | wants hasks ih =>
    rw [words_cons (by decide), meetWord_schema, hsettle]
    exact ih (settle_self rfl)
  | @joins schema p words request hp hasks ih =>
    have hne : argumentsWord ++ Octet.equals :: p.bytes ≠ dashes := by
      intro heq
      have hlength := congrArg List.length heq
      simp [argumentsWord, dashes] at hlength
    have hset : State.setPath ⟨schema, none, none⟩ p.bytes = .ok ⟨schema, some p, none⟩ :=
      setPath_ok_iff.mpr ⟨rfl, hp, rfl⟩
    rw [words_cons hne, meetWord_joined, hsettle]
    dsimp only [ok_bind]
    rw [hset]
    exact ih (settle_self rfl)
  | @follows schema p words request hp hoption hasks ih =>
    have hne : p.bytes ≠ dashes := by
      intro heq
      exact hoption ⟨Octet.minus, [], heq⟩
    rw [words_cons (by decide), meetWord_arguments, hsettle]
    dsimp only [ok_bind]
    rw [words_cons hne, meetWord_of_not_option hoption]
    exact ih (settle_pending hp)

/-- A command line that is not refused is answered with help or the version, or is read as the
request that it asks for. -/
theorem parse_iff (hhelp : request ≠ .help) (hversion : request ≠ .version) :
    parse words = .ok request ↔ Asks false none words request := by
  constructor
  · intro h
    rcases leads_of_words h with (hrequest | hrequest) | hleads
    · exact absurd hrequest hhelp
    · exact absurd hrequest hversion
    · exact hleads.asks rfl
  · intro hasks
    exact words_of_asks hasks rfl

/-! ### Runs -/

theorem Asks.request_of_schema (h : Asks true path words request) : request = .schema := by
  generalize hschema : true = schema at h
  induction h with
  | run => cases hschema
  | schema => rfl
  | wants => cases hschema
  | joins _ _ ih => exact ih hschema
  | follows _ _ _ ih => exact ih hschema

/-- A command line asks for a run on a path exactly when it gives the path and nothing else. -/
theorem parse_run_iff : parse words = .ok (.run (some p)) ↔ Gives words p := by
  have hasks : parse words = .ok (.run (some p)) ↔ Asks false none words (.run (some p)) :=
    parse_iff nofun nofun
  rw [hasks]
  constructor
  · intro h
    cases h with
    | wants h => cases h.request_of_schema
    | joins hp h =>
      cases h with
      | run hends => exact ⟨hp, _, hends, .inl rfl⟩
      | wants h => cases h.request_of_schema
    | follows hp hoption h =>
      cases h with
      | run hends => exact ⟨hp, _, hends, .inr ⟨rfl, hoption⟩⟩
      | wants h => cases h.request_of_schema
  · rintro ⟨hp, rest, hends, rfl | ⟨rfl, hoption⟩⟩
    · exact .joins hp (.run hends)
    · exact .follows hp hoption (.run hends)

end GzipStage.CommandLine
