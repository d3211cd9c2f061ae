import PacketBridge.Checkpoint
import PacketBridge.ChunkPlan
import PacketBridge.ContinuationCodec
import PacketBridge.FileUtils
import PacketBridge.HashCodec
import PacketBridge.ProgressTracker

/-! The receiver program, from the accepted connection to the exit. The lines logged at
an exit are kept with it, those logged on the way are left out. -/
namespace PacketBridge
open Foundations

inductive LogLevel where
  | info
  | warn
  | error
  deriving DecidableEq

abbrev LogLine := LogLevel × Bytes

inductive ReceiverExit where
  | manifestNotReceived
  | requestNotSent
  | checkpointNotInitialized
  | outputNotPrepared (outputPath : Bytes)
  | outputNotOpened (outputPath : Bytes)
  | headerNotReceived
  | headerInvalid
  | payloadNotReceived
  | writeFailed
  | checkpointNotUpdated
  | hashNotReceived
  | outputNotRead (outputPath : Bytes)
  | integrityFailed
  | complete (outputPath checkpointPath : Bytes) (fileSize : UInt64) (checkpointRemoved : Bool)
  deriving DecidableEq

namespace ReceiverExit

def code : ReceiverExit → ℕ
  | complete _ _ _ _ => 0
  | _ => 1

/-- The lines logged on the way out; a payload cut short logs none. For an output that is not read
this is the text of one that does not open. -/
def report : ReceiverExit → List LogLine
  | manifestNotReceived => [(.error, ascii "Failed to receive valid file manifest")]
  | requestNotSent => [(.error, ascii "Failed to send continuation request")]
  | checkpointNotInitialized => [(.error, ascii "Failed to initialize checkpoint file")]
  | outputNotPrepared outputPath =>
    [(.error, ascii "Unable to prepare output file: " ++ outputPath)]
  | outputNotOpened outputPath => [(.error, ascii "Unable to open output file: " ++ outputPath)]
  | headerNotReceived => [(.error, ascii "Failed to receive chunk header")]
  | headerInvalid => [(.error, ascii "Invalid chunk header received")]
  | payloadNotReceived => []
  | writeFailed => [(.error, ascii "Failed while writing output file")]
  | checkpointNotUpdated => [(.error, ascii "Failed to update checkpoint file")]
  | hashNotReceived => [(.error, ascii "Failed to receive valid SHA-256 hash packet")]
  | outputNotRead outputPath =>
    [(.error, ascii "unable to open file for SHA-256: " ++ outputPath)]
  | integrityFailed => [(.error, ascii "SHA-256 integrity failed")]
  | complete outputPath checkpointPath fileSize checkpointRemoved =>
    (if checkpointRemoved then []
      else [(.warn, ascii "Unable to remove checkpoint file: " ++ checkpointPath)]) ++
    [(.info, ascii "Byte-count verification passed: " ++ toDecimal fileSize.toNat ++
        ascii " bytes available"),
      (.info, ascii "SHA-256 integrity verified"),
      (.info, ascii "Transfer complete: " ++ outputPath)]

end ReceiverExit

def prepareOutputFile (outputPath : Bytes) (freshTransfer : Bool) : FileProg Bool :=
  if freshTransfer then do
    let create ← call (.openTrunc outputPath)
    call (.close outputPath)
    return create
  else fileExists outputPath

/-- The loop of `receive_file_chunks`; `none` is its success. -/
def receiveLoop (outputPath checkpointPath : Bytes) (manifest : FileManifest) :
    List UInt64 → TransferCheckpoint → ProgressTracker → TcpSocket →
      FileProg (Option ReceiverExit × ProgressTracker × TcpSocket)
  | [], _, progress, socket => return (none, progress, socket)
  | expectedIndex :: rest, checkpoint, progress, socket =>
    match receiveChunkHeader socket with
    | (none, socket) => return (some .headerNotReceived, progress, socket)
    | (some header, socket) =>
      if header.chunkIndex ≠ expectedIndex ∨ validateChunkHeader manifest header = false then
        return (some .headerInvalid, progress, socket)
      else
        match socket.recvExact header.payloadSize.toNat with
        | (none, socket) => return (some .payloadNotReceived, progress, socket)
        | (some buffer, socket) => do
          call (.seekp outputPath header.byteOffset)
          let written ← call (.write outputPath buffer)
          if written then
            let progress := progress.addProgress header.payloadSize.toUInt64 1
            let checkpoint := { checkpoint with
              completedChunks := checkpoint.completedChunks.insert header.chunkIndex }
            let saved ← saveCheckpoint checkpointPath checkpoint
            if saved then
              receiveLoop outputPath checkpointPath manifest rest checkpoint progress socket
            else return (some .checkpointNotUpdated, progress, socket)
          else return (some .writeFailed, progress, socket)

/-- The output stream is closed on every way out. -/
def receiveFileChunks (socket : TcpSocket) (outputPath checkpointPath : Bytes)
    (manifest : FileManifest) (chunkIndexes : List UInt64) (checkpoint : TransferCheckpoint)
    (progress : ProgressTracker) (freshTransfer : Bool) :
    FileProg (Option ReceiverExit × ProgressTracker × TcpSocket) := do
  let prepared ← prepareOutputFile outputPath freshTransfer
  if prepared then
    let opened ← call (.openInOut outputPath)
    if opened then
      let result ← receiveLoop outputPath checkpointPath manifest chunkIndexes checkpoint progress
        socket
      call (.close outputPath)
      return result
    else return (some (.outputNotOpened outputPath), progress, socket)
  else return (some (.outputNotPrepared outputPath), progress, socket)

/-- The checkpoint the transfer resumes from: the output exists, the checkpoint loads and matches. -/
def loadedCheckpoint (outputPath checkpointPath : Bytes) (manifest : FileManifest) :
    FileProg (Option TransferCheckpoint) := do
  let output ← fileExists outputPath
  if output then
    let loaded ← loadCheckpoint checkpointPath
    return loaded.filter fun checkpoint => checkpointMatchesManifest checkpoint manifest
  else return none

def verifyOutput (socket : TcpSocket) (outputPath checkpointPath : Bytes)
    (manifest : FileManifest) : FileProg (ReceiverExit × TcpSocket) :=
  match receiveHashPacket socket with
  | (none, socket) => return (.hashNotReceived, socket)
  | (some hashPacket, socket) =>
    if hashPacket.sessionId ≠ manifest.sessionId then return (.hashNotReceived, socket)
    else do
      let output ← call (.read outputPath)
      match output with
      | none => return (.outputNotRead outputPath, socket)
      | some content =>
        if sha256File content = hashPacket.sha256Hex then
          let removed ← removeCheckpoint checkpointPath
          return (.complete outputPath checkpointPath manifest.fileSize removed, socket)
        else return (.integrityFailed, socket)

def outputPathFor (outputDir : Bytes) (manifest : FileManifest) : Bytes :=
  joinOutputPath outputDir (ascii "received_" ++ sanitizeFilename manifest.filename)

/-- `main` once the manifest is accepted. -/
def receiverSession (outputDir : Bytes) (manifest : FileManifest) (client : TcpSocket) :
    FileProg (ReceiverExit × TcpSocket) := do
  let outputPath := outputPathFor outputDir manifest
  let checkpointPath := checkpointPathForOutput outputPath
  let loaded ← loadedCheckpoint outputPath checkpointPath manifest
  let checkpoint := loaded.getD (createCheckpointFromManifest manifest)
  let chunksToReceive := missingChunks checkpoint
  let request := {
    sessionId := manifest.sessionId
    totalChunks := manifest.chunkCount
    missingChunkIndexes := chunksToReceive }
  match sendContinueRequest client request with
  | (false, client) => return (.requestNotSent, client)
  | (true, client) => do
    let saved ← saveCheckpoint checkpointPath checkpoint
    if saved then
      let progress := {
        totalBytes := bytesForChunks manifest chunksToReceive
        totalChunks := UInt64.ofNat chunksToReceive.length }
      let (failed, _, client) ← receiveFileChunks client outputPath checkpointPath manifest
        chunksToReceive checkpoint progress loaded.isNone
      match failed with
      | some exit => return (exit, client)
      | none => verifyOutput client outputPath checkpointPath manifest
    else return (.checkpointNotInitialized, client)

/-- `main` from the accepted connection on. -/
def receiver (outputDir : Bytes) (client : TcpSocket) : FileProg (ReceiverExit × TcpSocket) :=
  match receiveFileManifest client with
  | (none, client) => return (.manifestNotReceived, client)
  | (some manifest, client) => receiverSession outputDir manifest client

end PacketBridge
