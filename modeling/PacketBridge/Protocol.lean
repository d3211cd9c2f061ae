import PacketBridge.Foundations.BigEndian

/-! Constants and the messages of one transfer, field by field as the protocol header declares
them. File names are arbitrary byte strings. -/
namespace PacketBridge
open Foundations

def kProtocolVersion : UInt16 := 1
def kDefaultChunkSize : ℕ := 64*1024
def kMaxFilenameLength : ℕ := 255

abbrev Digest := Vector UInt8 32

/-- Sender to receiver: sent before chunk data to describe the transfer plan. -/
structure FileManifest where
  filename : Bytes := []
  fileSize : UInt64 := 0
  chunkSize : UInt32 := UInt32.ofNat kDefaultChunkSize
  chunkCount : UInt64 := 0
  fileSha256 : Digest := Vector.replicate 32 0
  protocolVersion : UInt16 := kProtocolVersion
  sessionId : UInt64 := 0
  deriving DecidableEq

/-- Sender to receiver: sent before each chunk payload. -/
structure ChunkHeader where
  sessionId : UInt64 := 0
  chunkIndex : UInt64 := 0
  byteOffset : UInt64 := 0
  payloadSize : UInt32 := 0
  deriving DecidableEq

/-- Receiver to sender: the chunks still needed. -/
structure ContinueRequest where
  sessionId : UInt64 := 0
  totalChunks : UInt64 := 0
  missingChunkIndexes : List UInt64 := []
  deriving DecidableEq

/-- Sender to receiver: sent after all chunks to carry the expected digest of the file. -/
structure HashPacket where
  sessionId : UInt64 := 0
  sha256Hex : Bytes := []
  deriving DecidableEq

end PacketBridge
