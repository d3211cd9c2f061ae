import PacketBridge.ChunkPlan
import PacketBridge.ContinuationCodec
import PacketBridge.FileUtils
import PacketBridge.HashCodec
import PacketBridge.ProgressTracker

namespace PacketBridge
open Foundations

inductive SenderExit where
  | manifestNotSent
  | requestNotReceived
  | seekFailed
  | readFailed
  | headerNotSent
  | payloadNotSent
  | hashNotSent
  | complete
  deriving DecidableEq

def SenderExit.code : SenderExit → ℕ
  | complete => 0
  | _ => 1

def chunkHeaderFor (manifest : FileManifest) (chunkIndex : UInt64) : ChunkHeader :=
  { sessionId := manifest.sessionId
    chunkIndex := chunkIndex
    byteOffset := chunkIndex*manifest.chunkSize.toUInt64
    payloadSize := payloadSizeForChunk manifest chunkIndex }

/-- The loop of `send_file_chunks` in its `k`-th turn, where `read k` answers the reads of that turn;
`none` is its success. A seek target is a signed number. -/
def sendFileChunksFrom (read : ℕ → ℕ → ℕ → Bytes) (manifest : FileManifest) :
    ℕ → List UInt64 → ProgressTracker → TcpSocket → Option SenderExit × ProgressTracker × TcpSocket
  | _, [], progress, socket => (none, progress, socket)
  | k, chunkIndex :: rest, progress, socket =>
    let byteOffset := chunkIndex*manifest.chunkSize.toUInt64
    let payloadSize := payloadSizeForChunk manifest chunkIndex
    if byteOffset.toNat ≥ 2^63 then (some .seekFailed, progress, socket)
    else
      let buffer := read k byteOffset.toNat payloadSize.toNat
      if buffer.length ≠ payloadSize.toNat then (some .readFailed, progress, socket)
      else
        match sendChunkHeader socket (chunkHeaderFor manifest chunkIndex) with
        | (false, socket) => (some .headerNotSent, progress, socket)
        | (true, socket) =>
          match socket.sendAll buffer with
          | (false, socket) => (some .payloadNotSent, progress, socket)
          | (true, socket) =>
            sendFileChunksFrom read manifest (k+1) rest
              (progress.addProgress (UInt64.ofNat buffer.length) 1) socket

def readsOf (content : Bytes) : ℕ → ℕ → ℕ → Bytes := fun _ offset n => slice content offset n

def sendFileChunks (content : Bytes) (manifest : FileManifest) (idxs : List UInt64)
    (progress : ProgressTracker) (socket : TcpSocket) :
    Option SenderExit × ProgressTracker × TcpSocket :=
  sendFileChunksFrom (readsOf content) manifest 0 idxs progress socket

theorem sendFileChunksFrom_readsOf (content : Bytes) (m : FileManifest) (k : ℕ)
    (idxs : List UInt64) (t : ProgressTracker) (s : TcpSocket) :
    sendFileChunksFrom (readsOf content) m k idxs t s = sendFileChunks content m idxs t s := by
  rw [sendFileChunks]
  generalize 0 = j
  induction idxs generalizing k j t s with
  | nil => rfl
  | cons i is ih =>
    have hrest : sendFileChunksFrom (readsOf content) m (k+1) is =
        sendFileChunksFrom (readsOf content) m (j+1) is := funext₂ fun t s => ih (k+1) t s (j+1)
    rw [sendFileChunksFrom, sendFileChunksFrom, hrest]
    rfl

theorem sendFileChunks_cons (content : Bytes) (m : FileManifest) (i : UInt64) (is : List UInt64)
    (t : ProgressTracker) (s : TcpSocket) : sendFileChunks content m (i :: is) t s =
      let offset := i*m.chunkSize.toUInt64
      let size := payloadSizeForChunk m i
      if offset.toNat ≥ 2^63 then (some .seekFailed, t, s)
      else
        let buffer := slice content offset.toNat size.toNat
        if buffer.length ≠ size.toNat then (some .readFailed, t, s)
        else
          match sendChunkHeader s (chunkHeaderFor m i) with
          | (false, s) => (some .headerNotSent, t, s)
          | (true, s) =>
            match s.sendAll buffer with
            | (false, s) => (some .payloadNotSent, t, s)
            | (true, s) =>
              sendFileChunks content m is (t.addProgress (UInt64.ofNat buffer.length) 1) s := by
  have hrest : sendFileChunksFrom (readsOf content) m (0+1) is = sendFileChunks content m is :=
    funext₂ fun t s => sendFileChunksFrom_readsOf content m (0+1) is t s
  rw [sendFileChunks, sendFileChunksFrom, hrest]
  rfl

/-- The manifest `main` builds for the file at `filePath`. -/
def manifestFor (filePath : Bytes) (size : UInt64) : FileManifest :=
  { filename := sanitizeFilename (basenameFromPath filePath)
    fileSize := size
    chunkSize := UInt32.ofNat kDefaultChunkSize
    chunkCount := chunkCount size (UInt32.ofNat kDefaultChunkSize)
    protocolVersion := kProtocolVersion
    sessionId := 0 }

def senderManifest (filePath content : Bytes) : FileManifest :=
  manifestFor filePath (fileSize content)

def contentHash (manifest : FileManifest) (content : Bytes) : HashPacket :=
  { sessionId := manifest.sessionId, sha256Hex := sha256File content }

/-- `main` once the continuation request is accepted and the file is open; the bytes `hashed` were
hashed before. -/
def senderTransferOf (read : ℕ → ℕ → ℕ → Bytes) (hashed : Bytes) (manifest : FileManifest)
    (request : ContinueRequest) (socket : TcpSocket) : SenderExit × TcpSocket :=
  let progress := {
    totalBytes := bytesForChunks manifest request.missingChunkIndexes
    totalChunks := UInt64.ofNat request.missingChunkIndexes.length }
  let chunks := sendFileChunksFrom read manifest 0 request.missingChunkIndexes progress socket
  match chunks.1 with
  | some exit => (exit, chunks.2.2)
  | none =>
    let hash := sendHashPacket chunks.2.2 (contentHash manifest hashed)
    (if hash.1 then .complete else .hashNotSent, hash.2)

def senderTransfer (content : Bytes) (manifest : FileManifest) (request : ContinueRequest)
    (socket : TcpSocket) : SenderExit × TcpSocket :=
  senderTransferOf (readsOf content) content manifest request socket

theorem senderTransferOf_eq (read : ℕ → ℕ → ℕ → Bytes) (hashed : Bytes) (m : FileManifest)
    (request : ContinueRequest) (s : TcpSocket) : senderTransferOf read hashed m request s =
      let chunks := sendFileChunksFrom read m 0 request.missingChunkIndexes {
        totalBytes := bytesForChunks m request.missingChunkIndexes
        totalChunks := UInt64.ofNat request.missingChunkIndexes.length } s
      match chunks.1 with
      | some exit => (exit, chunks.2.2)
      | none =>
        let hash := sendHashPacket chunks.2.2 (contentHash m hashed)
        (if hash.1 then .complete else .hashNotSent, hash.2) := rfl

/-- `main` from the opened connection up to the transfer, whose exits are `exit` and those of
`transfer`. -/
def senderSession {ε : Type} (exit : SenderExit → ε)
    (transfer : ContinueRequest → TcpSocket → ε × TcpSocket) (manifest : FileManifest)
    (socket : TcpSocket) : ε × TcpSocket :=
  match sendFileManifest socket manifest with
  | (false, socket) => (exit .manifestNotSent, socket)
  | (true, socket) =>
    match receiveContinueRequest socket with
    | (none, socket) => (exit .requestNotReceived, socket)
    | (some request, socket) =>
      if validateContinueRequest manifest request then transfer request socket
      else (exit .requestNotReceived, socket)

/-- `main` from the opened connection on, for a file with these bytes that does not change. -/
def sender (filePath content : Bytes) (socket : TcpSocket) : SenderExit × TcpSocket :=
  let manifest := senderManifest filePath content
  senderSession id (senderTransfer content manifest) manifest socket

end PacketBridge
