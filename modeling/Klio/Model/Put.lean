import Klio.Model.Format

/-!
# The upload of a WAL file

`server/walserver/upload.go`, with `auth.go` and what it uses of `block_receiver.go` and
`feedback_sender.go`. A `Put` call receives a stream of blocks, already grouped into
batches by `Drain`, writes and flushes a batch at a time, and publishes the file when the
stream has ended and the declared number of bytes was flushed.

* `Msg`: what leaves the handler: feedback, results, tasks.
* `PutHandler`: the handler's state; `processBatch`, `finalize`, `runPut`, `put`.
-/

namespace Klio

open Lib

/-- Messages that leave the server: to the client, to the queue, to the log. `setFeedback` stores the
positions that the background sender then sends, some time, to the client; `ackWAL` ends the
delivery of a WAL task, `discardWAL` removes it from the dead letters. -/
inductive Msg where
  | setFeedback (writeLsn flushLsn : UInt64)
  | putResult (writeLsn flushLsn : UInt64)
  | walTask (clusterName walName : Name)
  | backupTask (clusterName : Name) (sendToTier2 : Bool) (tier2CompressionPolicy : Option Name)
  | getResult (walBlock : List UInt8) (segmentSize : UInt64)
  | settingFirstRequiredWAL (clusterDirectory firstWAL : Name)
  | latestUploadedWAL (clusterName walName : Name)
  | ackWAL (clusterName walName : Name)
  | discardWAL (clusterName walName : Name)
  deriving DecidableEq

structure PutRequest where
  clusterName : Name
  walName : Name
  walBlock : List UInt8
  segmentSize : UInt64
  walStartLsn : UInt64
  sendToTier2 : Bool

/-! ## Authorization -/

/-- What the context of a call tells about the peer. -/
inductive Peer where
  | noPeerInfo
  | noTLSInfo
  | noVerifiedClientCert
  | cert (commonName : Name)

/-- `peerClusterName`: the part of the common name after the first `@`. -/
def peerClusterName : Peer → Except Err Name
  | .noPeerInfo => .error (.new "no peer info in context")
  | .noTLSInfo => .error (.new "peer auth info is not TLS")
  | .noVerifiedClientCert => .error (.new "no verified client certificate")
  | .cert commonName =>
    match commonName.dropWhile (· != '@') with
    | _ :: c :: clusterName => .ok (c :: clusterName)
    | _ => .error (.errorf "commonName must be in the form userName@hostName, got %q" [commonName])

def authorizeClusterName (peer : Peer) (clusterName : Name) : Except Err Unit :=
  match peerClusterName peer with
  | .error e => .error (.status .permissionDenied (.wrap "cannot verify client certificate: %v" [] e))
  | .ok peerName =>
    if peerName ≠ clusterName then
      .error (.status .permissionDenied
        (.errorf "client certificate is not authorized for cluster %q" [clusterName]))
    else .ok ()

/-! ## Block metadata -/

/-- `setOrVerify`: a field still zero takes the value, another must agree with it. -/
def setOrVerify {T : Type} [DecidableEq T] (zero : T) (sprint : T → Name) (field incoming : T) (fieldName : Name) :
    Except Err T :=
  if field = zero then .ok incoming
  else if field ≠ incoming then
    .error (.errorf "incoherent %s, expected %s found %s" [fieldName, sprint field, sprint incoming])
  else .ok field

/-- `walUploadBlockMetadata` -/
structure BlockMeta where
  clusterName : Name := []
  walFileName : Name := []
  segmentSize : UInt64 := 0
  sendToTier2 : Bool := false
  walStartLSN : UInt64 := 0

/-- `fmt.Sprint` of a number. -/
def sprintUInt64 (n : UInt64) : Name := Nat.toDigits 10 n.toNat

def BlockMeta.handleRequest (m : BlockMeta) (request : PutRequest) : Except Err BlockMeta :=
  if request.clusterName = [] then .error (.new "empty cluster name")
  else if request.walName = [] then .error (.new "empty WAL name")
  else if request.segmentSize = 0 then .error (.new "empty segment size")
  else do
    let clusterName ← setOrVerify [] id m.clusterName request.clusterName "cluster name".toList
    let walFileName ← setOrVerify [] id m.walFileName request.walName "wal name".toList
    let segmentSize ← setOrVerify 0 sprintUInt64 m.segmentSize request.segmentSize "wal segment size".toList
    let walStartLSN ← setOrVerify 0 sprintUInt64 m.walStartLSN request.walStartLsn "wal start lsn".toList
    .ok ⟨clusterName, walFileName, segmentSize, request.sendToTier2, walStartLSN⟩

/-! ## The handler -/

/-- The WAL server: `Implementation`, as far as its handlers depend on it. -/
structure Implementation where
  isReadOnly : Bool
  queue : Bool

structure PutHandler where
  blockMeta : BlockMeta := {}
  walBuffer : Option Writer := none
  writtenBytes : UInt64 := 0
  flushedBytes : UInt64 := 0

/-- What `Drain` returns without an error: at least one block. -/
structure Batch where
  first : PutRequest
  rest : List PutRequest

def Batch.blocks (b : Batch) : List PutRequest := b.first :: b.rest

def putWriteBufferSize : ℤ := 4 * 1024 * 1024

/-- `SetFeedback` ignores a zero position. -/
def setFeedback (writeLSN flushLSN : UInt64) : FsProg Msg Unit :=
  if writeLSN = 0 ∨ flushLSN = 0 then .ret () else .call (.emit (.setFeedback writeLSN flushLSN)) fun _ => .ret ()

def validateRequest (D : Deps) (peer : Peer) (request : PutRequest) : Except Err Unit :=
  match validatePathComponent D request.clusterName with
  | .error e => .error (.status .invalidArgument (.wrap "invalid cluster name: %v" [] (.name e)))
  | .ok _ => match authorizeClusterName peer request.clusterName with
    | .error e => .error e
    | .ok _ => match validatePathComponent D request.walName with
      | .error e => .error (.status .invalidArgument (.wrap "invalid WAL name: %v" [] (.name e)))
      | .ok _ => match validateWalFileName request.walName with
        | .error _ => .error (.status .invalidArgument (.errorf "invalid WAL name: %q" [request.walName]))
        | .ok _ => .ok ()

/-- The checks of `validateBlock` and the metadata they leave. -/
def acceptBlock (D : Deps) (peer : Peer) (m : BlockMeta) (request : PutRequest) : Except Err BlockMeta :=
  match validateRequest D peer request with
  | .error e => .error e
  | .ok _ => match m.handleRequest request with
    | .error e => .error (.status .invalidArgument e)
    | .ok m => .ok m

namespace PutHandler

/-- `openWriter`: the writer is created at the first block. -/
def openWriter (K : Codec) (rand : ℕ → ℕ) (h : PutHandler) : FsProg Msg PutHandler :=
  match h.walBuffer with
  | some _ => .ret h
  | none =>
    (newWriter K rand ⟨h.blockMeta.clusterName, h.blockMeta.walFileName, h.blockMeta.segmentSize,
      putWriteBufferSize⟩).attempt.bind fun
      | .ok walBuffer => .ret { h with walBuffer := some walBuffer }
      | .error e => .err (.status .internal (.wrap "error while opening new WAL: %v" [] e))

def validateBlock (D : Deps) (K : Codec) (rand : ℕ → ℕ) (peer : Peer) (h : PutHandler) (request : PutRequest) :
    FsProg Msg PutHandler :=
  match acceptBlock D peer h.blockMeta request with
  | .error e => .err e
  | .ok m => ({ h with blockMeta := m } : PutHandler).openWriter K rand

/-- The loop over a batch. -/
def validateBlocks (D : Deps) (K : Codec) (rand : ℕ → ℕ) (peer : Peer) : PutHandler → List PutRequest →
    FsProg Msg PutHandler
  | h, [] => .ret h
  | h, request :: batch =>
    (h.validateBlock D K rand peer request).bind fun h => validateBlocks D K rand peer h batch

/-- Run an operation of the writer, with the text its failure is reported under. -/
def withBuffer (h : PutHandler) (text : String) (f : Writer → FsProg Msg (Writer × Except Err Unit)) :
    FsProg Msg PutHandler :=
  match h.walBuffer with
  | none => .err (.panics "invalid memory address or nil pointer dereference")
  | some w => (f w).bind fun
    | (w, .ok _) => .ret { h with walBuffer := some w }
    | (_, .error e) => .err (.status .internal (.wrap text [] e))

def writeBlock (K : Codec) (h : PutHandler) (data : List UInt8) : FsProg Msg PutHandler :=
  h.withBuffer "error while writing WAL: %v" fun w => w.writeBlock K data

def flushBuffer (h : PutHandler) : FsProg Msg PutHandler :=
  h.withBuffer "error while flushing WAL: %v" fun w => w.flush

/-- Report how far the stream is written and flushed. -/
def feedback (h : PutHandler) : FsProg Msg Unit :=
  setFeedback (h.writtenBytes + h.blockMeta.walStartLSN) (h.flushedBytes + h.blockMeta.walStartLSN)

def processBatch (D : Deps) (K : Codec) (rand : ℕ → ℕ) (peer : Peer) (h : PutHandler) (batch : Batch) :
    FsProg Msg PutHandler :=
  (validateBlocks D K rand peer h batch.blocks).bind fun h =>
  let payload := batch.blocks.flatMap PutRequest.walBlock
  (h.writeBlock K payload).bind fun h =>
  let h := { h with writtenBytes := h.writtenBytes + UInt64.ofNat payload.length }
  h.feedback.bind fun _ =>
  h.flushBuffer.bind fun h =>
  let h := { h with flushedBytes := h.flushedBytes + UInt64.ofNat payload.length }
  h.feedback.bind fun _ => .ret h

def isCompleted (h : PutHandler) : Bool := h.flushedBytes == h.blockMeta.segmentSize

def closePartial (h : PutHandler) : FsProg Msg PutHandler :=
  h.withBuffer "error while closing (partial) WAL: %v" fun w => w.close

def closeComplete (h : PutHandler) : FsProg Msg PutHandler :=
  h.withBuffer "error while closing (done) WAL: %v" fun w => w.closeMarkDone

def closeBuffer (h : PutHandler) : FsProg Msg PutHandler :=
  if h.isCompleted then h.closeComplete else h.closePartial

/-- `req.Send`, with the text its failure is reported under. -/
def send (text : String) (m : Msg) : FsProg Msg Unit :=
  .call (.emit m) fun (r : Except FsErr Unit) => match r with
    | .ok _ => .ret ()
    | .error e => .err (.status .internal (.wrap text [] (.fs e)))

def notifyTier2 (I : Implementation) (h : PutHandler) : FsProg Msg Unit :=
  if !h.blockMeta.sendToTier2 then .ret ()
  else if !I.queue then .err (.status .internal (.new "queue service is uninitialized"))
  else match h.walBuffer with
    | none => .err (.panics "invalid memory address or nil pointer dereference")
    | some w => send "error while putting WAL message into the queue, please retry: %v"
        (.walTask h.blockMeta.clusterName (w.walFilePath.getLastD ".".toList))

def finalize (I : Implementation) (h : PutHandler) : FsProg Msg Unit :=
  match h.walBuffer with
  | none => send "error while closing (partial) WAL: %v" (.putResult 0 0)
  | some _ => h.closeBuffer.bind fun h =>
    (send "error while sending response: %v" (.putResult (h.writtenBytes + h.blockMeta.walStartLSN)
      (h.flushedBytes + h.blockMeta.walStartLSN))).bind fun _ => h.notifyTier2 I

/-- `run`: the batches in order, then the end of the stream, whatever ended it. -/
def run (D : Deps) (K : Codec) (I : Implementation) (rand : ℕ → ℕ) (peer : Peer) : PutHandler → List Batch →
    FsProg Msg Unit
  | h, [] => h.finalize I
  | h, batch :: batches =>
    (h.processBatch D K rand peer batch).bind fun h => run D K I rand peer h batches

end PutHandler

def put (D : Deps) (K : Codec) (I : Implementation) (rand : ℕ → ℕ) (peer : Peer) (batches : List Batch) :
    FsProg Msg Unit :=
  if I.isReadOnly then .err (.status .failedPrecondition (.new "read only repository"))
  else PutHandler.run D K I rand peer {} batches

end Klio
