import PacketBridge.ChunkPlan

/-! The byte and chunk counters behind the progress line. The clock readings and the rates printed
from them are left out. -/
namespace PacketBridge
open Foundations

structure ProgressTracker where
  totalBytes : UInt64
  totalChunks : UInt64
  bytesTransferred : UInt64 := 0
  chunksCompleted : UInt64 := 0

def ProgressTracker.addProgress (t : ProgressTracker) (bytes chunks : UInt64) : ProgressTracker :=
  { t with
    bytesTransferred := t.bytesTransferred + bytes
    chunksCompleted := t.chunksCompleted + chunks }

/-- Both programs carry their own copy of this function. -/
def bytesForChunks (manifest : FileManifest) (chunkIndexes : List UInt64) : UInt64 :=
  chunkIndexes.foldl (fun total index =>
    total + (payloadSizeForChunk manifest index).toUInt64) 0

/-- The tracker after one chunk after another of the plan is through. -/
def ProgressTracker.afterChunks (t : ProgressTracker) (m : FileManifest) (idxs : List UInt64) :
    ProgressTracker :=
  idxs.foldl (fun t i => t.addProgress (payloadSizeForChunk m i).toUInt64 1) t

end PacketBridge
