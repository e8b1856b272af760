import GzipStage.Proofs.Stage.Compress
import GzipStage.Proofs.Transfer.Calls

/-! Which file an error is blamed on: the reader is not called again after a failure, and later
failures of the writer are not reported. -/
namespace GzipStage

open FileSystem Gzip Transfer

/-- The error for the end of a stream at which something went wrong. -/
def blame (source target : Path) : Side × IoError → StageError
  | (.reader, e) => .io .readingSource source e
  | (.writer, e) => .io .writingTarget target e

theorem any_fails_iff {answers : List ReadEvent} {side : Side} {e : IoError}
    (h : Tells answers (.error (side, e))) :
    answers.any ReadEvent.fails = true ↔ side = .reader := by
  rw [List.any_eq_true]
  constructor
  · rintro ⟨event, hmem, hfails⟩
    cases event with
    | chunk octets => cases hfails
    | fault cause =>
      have hfatal : cause.isInterrupted = false := by simpa [ReadEvent.fails] using hfails
      exact (h.reader_of_fault hmem hfatal).1
  · rintro rfl
    obtain ⟨hmem, hfatal⟩ := h.fault_mem
    exact ⟨_, hmem, by simp [ReadEvent.fails, hfatal]⟩

theorem streamBetween_eq (reader : List ReadEvent) (source : Path) (writer : Writer)
    (target : Path) (E : Encoder) : streamBetween reader source writer target E =
      ((compress reader writer E).result.mapError (blame source target),
        (compress reader writer E).writer) := by
  have htells := (compress_tells reader writer E).2
  unfold streamBetween
  dsimp only
  congr 1
  rcases hresult : (compress reader writer E).result with ⟨side, e⟩ | count
  · rw [hresult] at htells
    have hfailed := any_fails_iff htells
    cases side with
    | reader =>
      rw [hfailed.mpr rfl]
      rfl
    | writer =>
      have hnot : (compress reader writer E).reads.any ReadEvent.fails = false := by
        apply eq_false_of_ne_true
        intro hany
        cases hfailed.mp hany
      rw [hnot]
      rfl
  · rfl

theorem compressFile_streams {fs made : FileSystem} {plan : Plan} {i j : Inode} {P : Platform}
    (hsource : fs.locate plan.source = .ok i) (htarget : fs.create plan.target = .ok (made, j)) :
    let out := streamBetween (readerFor made i P) plan.source (writerFor made j P) plan.target
      P.encoder
    (compressFile fs plan P).1 = out.1.map (fun _ => ()) ∧
      (compressFile fs plan P).2.1 = made.store j out.2.accepted.toList := by
  intro out
  rw [compressFile_eq, hsource, htarget]
  dsimp only
  change (conclude plan out.1).1 = _ ∧ made.store j out.2.accepted.toList = _
  cases out.1 with
  | error e => exact ⟨rfl, rfl⟩
  | ok count => exact ⟨rfl, rfl⟩

/-- When compressing between two ends fails, the source is blamed with the reader's own error if a
call of the reader has failed for good, and otherwise the target with the writer's own error.
Compressing a file is compressing between a reader and a writer for its two nodes. -/
theorem streamBetween_blames {E : Encoder} (hE : E.Lawful) :
    (∀ (reader : List ReadEvent) (source : Path) (writer : Writer) (target : Path)
      (e : StageError) (left : Writer),
      streamBetween reader source writer target E = (.error e, left) →
      (compress reader writer E).reads <+: reader ∧
      (∀ cause, .fault cause ∈ (compress reader writer E).reads → cause.isInterrupted = false →
        e = .io .readingSource source cause) ∧
      ((∀ cause, .fault cause ∈ (compress reader writer E).reads → cause.isInterrupted = true) →
        ∃ cause, e = .io .writingTarget target cause ∧ WriterFails E writer cause left)) ∧
    ∀ (P : Platform) (fs made : FileSystem) (plan : Plan) (i j : Inode),
      fs.locate plan.source = .ok i → fs.create plan.target = .ok (made, j) →
      (compressFile fs plan P).1 = (streamBetween (readerFor made i P) plan.source
        (writerFor made j P) plan.target P.encoder).1.map fun _ => () := by
  constructor
  · intro reader source writer target e left h
    rw [streamBetween_eq, Prod.mk.injEq] at h
    obtain ⟨herror, rfl⟩ := h
    obtain ⟨hreads, htells⟩ := compress_tells reader writer E
    rcases hresult : (compress reader writer E).result with ⟨side, cause⟩ | count
    · rw [hresult] at htells herror
      obtain rfl := Except.error.inj herror
      refine ⟨hreads, ?_, ?_⟩
      · intro cause' hmem hfatal
        obtain ⟨rfl, rfl⟩ := htells.reader_of_fault hmem hfatal
        rfl
      · intro hall
        obtain rfl := htells.writer_of_interrupted hall
        exact ⟨cause, rfl, compress_writer_fails hE hresult⟩
    · rw [hresult] at herror
      cases herror
  · intro P fs made plan i j hsource htarget
    exact (compressFile_streams hsource htarget).1

/-- A source that cannot be read any more after an interruption, a target without room, and a
directory as source. -/
theorem streamBetween_blames_ends :
    let broken : IoError := .custom .other "bad sector" []
    let again : ReadEvent := .fault (.plain .interrupted)
    let full : Writer := .broken (.refuse .noSpace)
    (streamBetween [again, .fault broken] ⟨[0x66]⟩ full ⟨[0x67]⟩).1 =
        .error (.io .readingSource ⟨[0x66]⟩ broken) ∧
      (∃ cause, (streamBetween [again, .chunk [7]] ⟨[0x66]⟩ full ⟨[0x67]⟩).1 =
        .error (.io .writingTarget ⟨[0x67]⟩ cause)) ∧
      (compressFile oneFile ⟨⟨[0x2e]⟩, ⟨[0x67]⟩⟩).1 =
        .error (.io .readingSource ⟨[0x2e]⟩ .isDirectory) := by
  intro broken again full
  obtain ⟨hstream, hfile⟩ := streamBetween_blames encoder_lawful
  refine ⟨?_, ?_, ?_⟩
  · obtain ⟨e, left, h⟩ : ∃ e left,
        streamBetween [again, .fault broken] ⟨[0x66]⟩ full ⟨[0x67]⟩ = (.error e, left) :=
      ⟨_, _, rfl⟩
    have hreads : (compress [again, .fault broken] full).reads = [again, .fault broken] := by rfl
    have hblame := (hstream _ _ _ _ _ _ h).2.1 broken (by simp [hreads]) rfl
    rw [h, hblame]
  · obtain ⟨e, left, h⟩ : ∃ e left,
        streamBetween [again, .chunk [7]] ⟨[0x66]⟩ full ⟨[0x67]⟩ = (.error e, left) :=
      ⟨_, _, rfl⟩
    have hreads : (compress [again, .chunk [7]] full).reads = [again, .chunk [7]] := by rfl
    have hagain (cause : IoError) (hmem : .fault cause ∈ [again, .chunk [7]]) :
        cause.isInterrupted = true := by
      obtain rfl : cause = .plain .interrupted := by simpa [again] using hmem
      decide
    obtain ⟨cause, hblame, _⟩ := (hstream _ _ _ _ _ _ h).2.2 (hreads ▸ hagain)
    exact ⟨cause, by rw [h, hblame]⟩
  · rw [hfile {} oneFile _ ⟨⟨[0x2e]⟩, ⟨[0x67]⟩⟩ 0 2 rfl rfl]
    rfl

end GzipStage
