import GzipStage.Proofs.FileSystem.Create
import GzipStage.Proofs.Transfer.Compress
import GzipStage.Stage

/-! Compressing one file into another. The source is read when the target has been emptied. -/
namespace GzipStage

open FileSystem Gzip Transfer

variable {P : Platform} {fs after : FileSystem} {plan : Plan} {answer : Except StageError Unit}
  {log : List Log.Record}

/-- The encoder is lawful, and a node that is read to its end without a failure has given what it
holds. -/
structure Platform.Faithful (P : Platform) : Prop where
  encoder : P.encoder.Lawful
  reads : ∀ (i : Inode) (octets : Bytes), readFailure (P.reads i octets) = none →
    delivered (P.reads i octets) = octets

theorem Platform.default_faithful : ({} : Platform).Faithful where
  encoder := encoder_lawful
  reads := by
    intro _ octets _
    exact (readerOf_delivers octets).1

/-- What comes of compressing the contents of one node into another. -/
def streamed (P : Platform) (fs : FileSystem) (source target : Inode) : Outcome :=
  compress (readerFor fs source P) (writerFor fs target P) P.encoder

/-- What compressing a file can come to: the answer, the file system after it, and the log. -/
inductive Compressed (P : Platform) (fs : FileSystem) (plan : Plan) :
    Except StageError Unit → FileSystem → List Log.Record → Prop
  | unopened {e : IoError} (hsource : fs.locate plan.source = .error e) :
      Compressed P fs plan (.error (.io .openingSource plan.source e)) fs []
  | uncreated {e : IoError} (htarget : fs.create plan.target = .error e) :
      Compressed P fs plan (.error (.io .creatingTarget plan.target e)) fs []
  | unread {e : IoError} {found : Found} (written : Bytes)
      (hfound : fs.resolve .create plan.target = .ok found) :
      Compressed P fs plan (.error (.io .readingSource plan.source e)) (fs.put written found) []
  | unwritten {e : IoError} {found : Found} (written : Bytes)
      (hfound : fs.resolve .create plan.target = .ok found) :
      Compressed P fs plan (.error (.io .writingTarget plan.target e)) (fs.put written found) []
  | done {source : Inode} {found : Found} {count : Nat} (written : Bytes)
      (hsource : fs.locate plan.source = .ok source)
      (hfound : fs.resolve .create plan.target = .ok found)
      (hresult : (streamed P (fs.put [] found) source (fs.placeOf found)).result = .ok count)
      (hwritten : (streamed P (fs.put [] found) source (fs.placeOf found)).writer.accepted.toList =
        written) :
      Compressed P fs plan (.ok ()) (fs.put written found) [compressedRecord count plan]

theorem streamBetween_cases (reader : List ReadEvent) (source : Path) (writer : Writer)
    (target : Path) (E : Encoder) :
    (∃ e, (streamBetween reader source writer target E).1 = .error (.io .readingSource source e)) ∨
      (∃ e,
        (streamBetween reader source writer target E).1 = .error (.io .writingTarget target e)) ∨
      ∃ count, (compress reader writer E).result = .ok count ∧
        (streamBetween reader source writer target E).1 = .ok count := by
  unfold streamBetween
  dsimp only
  rcases (compress reader writer E).result with ⟨_, e⟩ | count
  · cases (compress reader writer E).reads.any ReadEvent.fails with
    | true => exact .inl ⟨e, rfl⟩
    | false => exact .inr (.inl ⟨e, rfl⟩)
  · exact .inr (.inr ⟨count, rfl, rfl⟩)

theorem compressFile_eq (fs : FileSystem) (plan : Plan) (P : Platform) :
    compressFile fs plan P =
      match fs.locate plan.source with
      | .error e => (.error (.io .openingSource plan.source e), fs, [])
      | .ok source =>
        match fs.create plan.target with
        | .error e => (.error (.io .creatingTarget plan.target e), fs, [])
        | .ok (made, target) =>
          let (result, writer) := streamBetween (readerFor made source P) plan.source
            (writerFor made target P) plan.target P.encoder
          ((conclude plan result).1, made.store target writer.accepted.toList,
            (conclude plan result).2) := by
  have hopen : P.files.openSource plan.source fs = (fs.locate plan.source, fs) := rfl
  have hcreate : P.files.createTarget plan.target fs =
      match fs.create plan.target with
      | .error e => (.error e, fs)
      | .ok (made, target) => (.ok target, made) := rfl
  simp only [compressFile, Files.compress, StateT.run, bind, StateT.bind, hopen]
  cases fs.locate plan.source with
  | error e => rfl
  | ok source =>
    simp only [bind, StateT.bind, hcreate]
    cases fs.create plan.target with
    | error e => rfl
    | ok made => rfl

theorem compressFile_compressed (fs : FileSystem) (plan : Plan) (P : Platform) :
    Compressed P fs plan (compressFile fs plan P).1 (compressFile fs plan P).2.1
      (compressFile fs plan P).2.2 := by
  rw [compressFile_eq]
  cases hsource : fs.locate plan.source with
  | error e => exact .unopened hsource
  | ok source =>
    rcases htarget : fs.create plan.target with e | ⟨made, target⟩
    · exact .uncreated htarget
    · obtain ⟨found, hfound, rfl, rfl⟩ := create_ok htarget
      dsimp only
      rw [store_put hfound]
      obtain ⟨e, hresult⟩ | ⟨e, hresult⟩ | ⟨count, hcompress, hresult⟩ := streamBetween_cases
        (readerFor (fs.put [] found) source P) plan.source
        (writerFor (fs.put [] found) (fs.placeOf found) P) plan.target P.encoder
      all_goals rw [hresult]
      · exact .unread _ hfound
      · exact .unwritten _ hfound
      · exact .done _ hsource hfound hcompress rfl

theorem compressed_of_eq (h : compressFile fs plan P = (answer, after, log)) :
    Compressed P fs plan answer after log := by
  have hcompressed := compressFile_compressed fs plan P
  rwa [h] at hcompressed

/-- Compressing a file changes nothing but the target, whatever comes of it. -/
theorem Compressed.changedOnlyAt (h : Compressed P fs plan answer after log) :
    fs.ChangedOnlyAt after plan.target := by
  cases h with
  | unopened hsource => exact ChangedOnlyAt.refl fs plan.target
  | uncreated htarget => exact ChangedOnlyAt.refl fs plan.target
  | unread written hfound => exact put_changedOnlyAt hfound written
  | unwritten written hfound => exact put_changedOnlyAt hfound written
  | done written _ hfound _ _ => exact put_changedOnlyAt hfound written

theorem writerFor_accepted (fs : FileSystem) (i : Inode) (P : Platform) :
    (writerFor fs i P).accepted = #[] := by
  unfold writerFor
  split <;> rfl

/-- A reader for a node that does not fail gives what the node holds. -/
theorem contents_of_readerFor (hP : P.Faithful) {i : Inode}
    (h : readFailure (readerFor fs i P) = none) :
    fs.contents i = .ok (delivered (readerFor fs i P)) := by
  unfold readerFor at h ⊢
  cases hcontents : fs.contents i with
  | ok octets =>
    rw [hcontents] at h
    exact congrArg Except.ok (hP.reads i octets h).symm
  | error e =>
    have hfatal : e.isInterrupted = false := by
      unfold FileSystem.contents at hcontents
      split at hcontents <;> cases hcontents <;> rfl
    rw [hcontents] at h
    simp [readFailure, hfatal] at h

/-- A success has read all that the source holds, and written what the encoder makes of it. -/
theorem streamed_ok (hP : P.Faithful) {source target : Inode} {count : Nat}
    (h : (streamed P fs source target).result = .ok count) :
    fs.contents source = .ok (delivered (readerFor fs source P)) ∧
      count = (delivered (readerFor fs source P)).length ∧
      (streamed P fs source target).writer.accepted.toList =
        P.encoder.output (pieces (readerFor fs source P)) := by
  obtain ⟨hreader, hcount, haccepted⟩ := compress_ok hP.encoder h
  rw [writerFor_accepted, List.nil_append] at haccepted
  exact ⟨contents_of_readerFor hP hreader, hcount, haccepted⟩

/-- Compressing a file succeeds when the source can be read and the target holds what is
written. -/
theorem compressFile_ok {source : Inode} {found : Found} {contents : Bytes}
    (hsource : fs.locate plan.source = .ok source)
    (hfound : fs.resolve .create plan.target = .ok found) (hholds : fs.Holds found)
    (hcontents : (fs.put [] found).contents source = .ok contents) :
    ∃ after log, compressFile fs plan = (.ok (), after, log) := by
  have hcreate : fs.create plan.target = .ok (fs.put [] found, fs.placeOf found) := by
    apply create_of_resolve hfound
    rintro i parent entries rfl
    obtain ⟨old, hold⟩ := hholds
    simp [hold]
  have hreader : readerFor (fs.put [] found) source = readerOf contents := by
    simp only [readerFor, hcontents]
  have hwriter : writerFor (fs.put [] found) (fs.placeOf found) = .generous := by
    rw [writerFor, nodes_put hfound hholds, if_neg (by simp)]
    rfl
  have hserves : Writer.generous.Serves
      (Gzip.encoder.output (pieces (readerOf contents))).length := .inr trivial
  have hresult := (compress_flushes encoder_lawful (readerOf_delivers contents).2 hserves).1
  rw [compressFile_eq, hsource, hcreate]
  unfold streamBetween
  dsimp only
  rw [hreader, hwriter, hresult]
  exact ⟨_, _, rfl⟩

theorem contents_of_put {fs : FileSystem} {p : Path} {source : Inode} {found : Found}
    {held contents : Bytes} (hfound : fs.resolve .create p = .ok found)
    (hheld : fs.nodes[source]? = some (.file held))
    (hcontents : (fs.put [] found).contents source = .ok contents) :
    (fs.locate p = .ok source → contents = []) ∧
      (fs.locate p ≠ .ok source → contents = held) := by
  have hlt : source < fs.nodes.size := (Array.getElem?_eq_some_iff.mp hheld).1
  unfold FileSystem.contents at hcontents
  constructor
  · intro hsame
    obtain rfl := found_of_locate hfound hlt hsame
    have hempty : (fs.put [] (.node source)).nodes[source]? = some (.file []) :=
      nodes_put hfound ⟨held, hheld⟩ []
    simpa [hempty] using hcontents.symm
  · intro hother
    obtain hkept | ⟨hp, _⟩ | ⟨_, _, _, _, hdirectory, _⟩ :=
      (put_changedOnlyAt hfound []).nodes source _ hheld
    · simpa [hkept] using hcontents.symm
    · exact (hother hp).elim
    · simp at hdirectory

/-- After a success the target is a member for what the source held when it was read. -/
theorem Compressed.member (hP : P.Faithful) {source : Inode} {held : Bytes}
    (h : Compressed P fs plan (.ok ()) after log) (hsource : fs.locate plan.source = .ok source)
    (hheld : fs.nodes[source]? = some (.file held))
    (htarget : ∀ i, fs.locate plan.target = .ok i → ∃ old, fs.nodes[i]? = some (.file old)) :
    ∃ octets contents, after.read plan.target = .ok octets ∧ IsMember octets contents ∧
      (fs.locate plan.target = .ok source → contents = []) ∧
      (fs.locate plan.target ≠ .ok source → contents = held) := by
  cases h with
  | @done source' found count written hsource' hfound hresult hwritten =>
    obtain rfl : source = source' := by simpa [hsource] using hsource'
    obtain ⟨hcontents, _, haccepted⟩ := streamed_ok hP hresult
    obtain rfl : written = _ := hwritten.symm.trans haccepted
    exact ⟨_, _, read_put hfound (holds_of_locate hfound htarget) _,
      hP.encoder.output_isMember _, contents_of_put hfound hheld hcontents⟩

/-- When compressing a file into a file succeeds, the target is one whole member.  Its contents
are those of the source, unless the target is the same file: then they are empty, since the target
is emptied before the source is read. -/
theorem compressFile_keeps_iff (hP : P.Faithful) {source : Inode} {held : Bytes}
    (h : compressFile fs plan P = (.ok (), after, log))
    (hsource : fs.locate plan.source = .ok source)
    (hheld : fs.nodes[source]? = some (.file held))
    (htarget : ∀ i, fs.locate plan.target = .ok i → ∃ old, fs.nodes[i]? = some (.file old)) :
    ∃ octets member, after.read plan.target = .ok octets ∧ read? octets = some member ∧
      member.size = octets.length ∧ IsMember octets member.contents ∧
      (fs.locate plan.target ≠ .ok source → member.contents = held) ∧
      (fs.locate plan.target = .ok source → member.contents = []) ∧
      (member.contents = held ↔ fs.locate plan.target ≠ .ok source ∨ held = []) := by
  obtain ⟨octets, contents, hread, hmember, hsame, hother⟩ :=
    (compressed_of_eq h).member hP hsource hheld htarget
  refine ⟨octets, _, hread, hmember.read?, rfl, hmember, hother, hsame, ?_, ?_⟩
  · intro heq
    by_cases hp : fs.locate plan.target = .ok source
    · exact .inr (heq.symm.trans (hsame hp))
    · exact .inl hp
  · intro hcase
    by_cases hp : fs.locate plan.target = .ok source
    · obtain rfl := hcase.resolve_left (not_not_intro hp)
      exact hsame hp
    · exact hother hp

def oneFile : FileSystem where
  nodes := #[.directory 0 [([0x66], 1)], .file [0x68, 0x65, 0x6c, 0x6c, 0x6f]]
  working := 0

/-- Compressing `f` into a new file `g`. -/
theorem compressFile_keeps_copy : ∃ after log octets member,
    compressFile oneFile ⟨⟨[0x66]⟩, ⟨[0x67]⟩⟩ = (.ok (), after, log) ∧
      after.read ⟨[0x67]⟩ = .ok octets ∧ read? octets = some member ∧
      member.contents = [0x68, 0x65, 0x6c, 0x6c, 0x6f] := by
  have hsource : oneFile.locate ⟨[0x66]⟩ = .ok 1 := by rfl
  have hfound : oneFile.resolve .create ⟨[0x67]⟩ = .ok (.entry 0 [0x67]) := by rfl
  have hfree : oneFile.locate ⟨[0x67]⟩ = .error .noEntry := by rfl
  obtain ⟨after, log, hok⟩ : ∃ after log,
      compressFile oneFile ⟨⟨[0x66]⟩, ⟨[0x67]⟩⟩ = (.ok (), after, log) :=
    compressFile_ok hsource hfound trivial rfl
  obtain ⟨octets, member, hread, hmember, _, _, hkept, _⟩ :=
    compressFile_keeps_iff Platform.default_faithful hok hsource rfl (by simp [hfree])
  exact ⟨after, log, octets, member, hok, hread, hmember, hkept (by simp [hfree])⟩

/-- Compressing `f` into itself loses what it held. -/
theorem not_compressFile_keeps : ¬ ∀ (fs after : FileSystem) (plan : Plan)
    (log : List Log.Record) (source : Inode) (held : Bytes),
    compressFile fs plan = (.ok (), after, log) → fs.locate plan.source = .ok source →
    fs.nodes[source]? = some (.file held) →
    (∀ i, fs.locate plan.target = .ok i → ∃ old, fs.nodes[i]? = some (.file old)) →
    ∃ octets member, after.read plan.target = .ok octets ∧ read? octets = some member ∧
      member.contents = held := by
  intro hclaim
  have hsource : oneFile.locate ⟨[0x66]⟩ = .ok 1 := by rfl
  have hfound : oneFile.resolve .create ⟨[0x66]⟩ = .ok (.node 1) := by rfl
  have htarget : ∀ i, oneFile.locate ⟨[0x66]⟩ = .ok i →
      ∃ old, oneFile.nodes[i]? = some (.file old) := by
    intro i hi
    obtain rfl : 1 = i := by simpa [hsource] using hi
    exact ⟨_, rfl⟩
  obtain ⟨after, log, hok⟩ : ∃ after log,
      compressFile oneFile ⟨⟨[0x66]⟩, ⟨[0x66]⟩⟩ = (.ok (), after, log) :=
    compressFile_ok hsource hfound ⟨_, rfl⟩ rfl
  obtain ⟨octets, contents, hread, hwhole, hsame, _⟩ :=
    (compressed_of_eq hok).member Platform.default_faithful hsource rfl htarget
  obtain ⟨octets', member, hread', hmember, hheld⟩ :=
    hclaim oneFile after _ log 1 _ hok hsource rfl htarget
  obtain rfl : octets = octets' := by simpa [hread] using hread'
  obtain rfl : _ = member := Option.some.inj (hwhole.read?.symm.trans hmember)
  rw [show contents = _ from hheld] at hsame
  exact absurd (hsame hsource) (List.cons_ne_nil _ _)

end GzipStage
