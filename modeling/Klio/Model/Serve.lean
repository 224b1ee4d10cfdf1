import Klio.Lib.Threads
import Klio.Model.Put

/-!
# A `Put` call and its goroutines

`server/walserver/upload.go` with `block_receiver.go` and `feedback_sender.go`: the handler drains
the blocks that have arrived, a batch at a time, while another goroutine sends the positions that the
handler has left in two atomics.

* `SrvOp`, `SrvState`: what the two goroutines do, and what they share.
* `PutHandler.processBatchWith`: a batch, over how positions are reported; `processBatch_eq` says that
  the handler by itself is this one.
* `PutHandler.serve`, `sendLoop`: the goroutines; `putServer`: both, before anything has happened.
-/

namespace Klio

open Lib

/-! ## Operations -/

/-- What `Drain` returns. -/
inductive Drained where
  | batch (b : Batch)
  /-- `io.EOF` -/
  | eof
  /-- Another error, of `Recv` or of the context. -/
  | failed

/-- What a goroutine of a call does in one step. -/
inductive SrvOp where
  /-- `receiver.Drain` -/
  | drain
  /-- A file operation or a message; `req.Send` is one. -/
  | files (o : FsOp Name UInt8 Msg)
  /-- `Flush` has returned without an error, after this payload was written. -/
  | flushed (payload : List UInt8)
  | storeWrite (v : UInt64)
  | storeFlush (v : UInt64)
  | loadWrite
  | loadFlush
  /-- Send to `s.wake`, unless it is full. -/
  | wake
  /-- `s.cancel()` -/
  | cancel
  /-- `<-s.done` -/
  | awaitDone
  /-- The `select` of the sender: whether it was woken, and not told to stop. -/
  | next
  /-- `close(s.done)` -/
  | closeDone
  /-- The handler has returned, without an error or with one. -/
  | returned (ok : Bool)

/-- What an operation answers. -/
def SrvOp.Res : SrvOp → Type
  | .drain => Drained
  | .files o => o.Res
  | .loadWrite | .loadFlush => UInt64
  | .next => Bool
  | _ => Unit

/-- A program of a goroutine. -/
abbrev SrvProg (α : Type) := Prog SrvOp SrvOp.Res Err α

/-- A `PutResult` that was sent, and how many bytes of payload completed calls of `Flush` covered
then. -/
structure SentResult where
  writeLsn : UInt64
  flushLsn : UInt64
  covered : ℕ
  deriving DecidableEq

/-- What the goroutines of a call share. -/
structure SrvState where
  /-- The blocks that the client has sent and `Drain` has not returned yet. -/
  wire : List PutRequest := []
  /-- The client has said that there are no more. -/
  halfClosed : Bool := false
  /-- A send of the client has failed. -/
  broken : Bool := false
  /-- `Drain` has returned an error other than `io.EOF`. -/
  recvFailed : Bool := false
  writeLSN : UInt64 := 0
  flushLSN : UInt64 := 0
  wake : Bool := false
  cancelled : Bool := false
  done : Bool := false
  sent : List SentResult := []
  /-- The payload that completed calls of `Flush` cover. -/
  flushed : List UInt8 := []
  /-- The WAL tasks that the queue has taken, each with its cluster. -/
  published : List (Name × Name) := []
  returned : Option Bool := none

/-- What a step leaves open. -/
inductive SrvChoice where
  | none
  /-- A file operation or a send fails. -/
  | fault (k : ℕ)
  /-- One block and up to `n` more have arrived. -/
  | take (n : ℕ)
  /-- The context is done, or the connection is lost. -/
  | ended

/-- The fault of a file operation. -/
def SrvChoice.toFault : SrvChoice → Option ℕ
  | .fault k => some k
  | _ => Option.none

namespace SrvState

/-- A message leaves the server. A result may reach the client although `Send` fails. -/
def emitted (s : SrvState) (c : SrvChoice) : FsOp Name UInt8 Msg → SrvState
  | .emit (.putResult w f) => { s with sent := s.sent ++ [⟨w, f, s.flushed.length⟩] }
  | .emit (.walTask clusterName walName) =>
    if c.toFault = none then { s with published := s.published ++ [(clusterName, walName)] } else s
  | _ => s

/-- **What an operation answers and does**, or nothing as long as it has to wait. -/
def exec : (o : SrvOp) → SrvChoice → SrvState × Fs Name UInt8 → Option (o.Res × (SrvState × Fs Name UInt8))
  | .drain, c, (s, fs) => match c with
    | .take n => match s.wire with
      | [] => none
      | first :: rest => some (.batch ⟨first, rest.take n⟩, ({ s with wire := rest.drop n }, fs))
    | .ended => some (.failed, ({ s with recvFailed := true }, fs))
    | _ => if s.wire.isEmpty ∧ s.halfClosed = true ∧ s.broken = false then some (.eof, (s, fs)) else none
  | .files o, c, (s, fs) => some ((Fs.exec o c.toFault fs).1, (s.emitted c o, (Fs.exec o c.toFault fs).2))
  | .flushed payload, _, (s, fs) => some ((), ({ s with flushed := s.flushed ++ payload }, fs))
  | .storeWrite v, _, (s, fs) => some ((), ({ s with writeLSN := v }, fs))
  | .storeFlush v, _, (s, fs) => some ((), ({ s with flushLSN := v }, fs))
  | .loadWrite, _, (s, fs) => some (s.writeLSN, (s, fs))
  | .loadFlush, _, (s, fs) => some (s.flushLSN, (s, fs))
  | .wake, _, (s, fs) => some ((), ({ s with wake := true }, fs))
  | .cancel, _, (s, fs) => some ((), ({ s with cancelled := true }, fs))
  | .awaitDone, _, (s, fs) => if s.done = true then some ((), (s, fs)) else none
  | .next, c, (s, fs) => match c with
    | .ended => some (false, (s, fs))
    | _ => if s.wake = true then some (true, ({ s with wake := false }, fs))
      else if s.cancelled = true then some (false, (s, fs)) else none
  | .closeDone, _, (s, fs) => some ((), ({ s with done := true }, fs))
  | .returned ok, _, (s, fs) => some ((), ({ s with returned := some ok }, fs))

end SrvState

/-! ## The handler -/

/-- Issue an operation that answers nothing. -/
def SrvOp.run (o : SrvOp) (h : o.Res = Unit) : SrvProg Unit := .call o fun r => .ret (cast h r)

/-- The part of the handler that uses files and sends messages. -/
def onFiles {α : Type} : FsProg Msg α → SrvProg α
  | .ret a => .ret a
  | .err e => .err e
  | .call o k => .call (.files o) fun r => onFiles (k r)

namespace PutHandler

/-- `processBatch`, over how positions are reported and that a flush is noticed. -/
def processBatchWith {O : Type} {R : O → Type} (embed : ∀ {α : Type}, FsProg Msg α → Prog O R Err α)
    (setFeedback : UInt64 → UInt64 → Prog O R Err Unit) (flushed : List UInt8 → Prog O R Err Unit)
    (D : Deps) (K : Codec) (rand : ℕ → ℕ) (peer : Peer) (h : PutHandler) (batch : Batch) : Prog O R Err PutHandler :=
  (embed (validateBlocks D K rand peer h batch.blocks)).bind fun h =>
  let payload := batch.blocks.flatMap PutRequest.walBlock
  (embed (h.writeBlock K payload)).bind fun h =>
  let h := { h with writtenBytes := h.writtenBytes + UInt64.ofNat payload.length }
  (setFeedback (h.writtenBytes + h.blockMeta.walStartLSN) (h.flushedBytes + h.blockMeta.walStartLSN)).bind fun _ =>
  (embed h.flushBuffer).bind fun h =>
  (flushed payload).bind fun _ =>
  let h := { h with flushedBytes := h.flushedBytes + UInt64.ofNat payload.length }
  (setFeedback (h.writtenBytes + h.blockMeta.walStartLSN) (h.flushedBytes + h.blockMeta.walStartLSN)).bind fun _ => .ret h

theorem processBatch_eq (D : Deps) (K : Codec) (rand : ℕ → ℕ) (peer : Peer) (h : PutHandler) (batch : Batch) :
    h.processBatch D K rand peer batch = h.processBatchWith id setFeedback (fun _ => .ret ()) D K rand peer batch := rfl

end PutHandler

/-- `SetFeedback`: both positions, one after the other, and a wake-up. -/
def storeFeedback (writeLSN flushLSN : UInt64) : SrvProg Unit :=
  if writeLSN = 0 ∨ flushLSN = 0 then .ret ()
  else
    (SrvOp.run (.storeWrite writeLSN) rfl).bind fun _ =>
    (SrvOp.run (.storeFlush flushLSN) rfl).bind fun _ => SrvOp.run .wake rfl

/-- `feedback.Stop` -/
def stopFeedback : SrvProg Unit := (SrvOp.run .cancel rfl).bind fun _ => SrvOp.run .awaitDone rfl

namespace PutHandler

/-- The end of `run`, once `Drain` has returned an error, whatever it is. -/
def endOfBlocks (I : Implementation) (h : PutHandler) : SrvProg Unit :=
  stopFeedback.bind fun _ =>
  (onFiles (h.finalize I)).attempt.bind fun res => SrvOp.run (.returned res.isOk) rfl

/-- `run`, for `n` rounds. -/
def serve (D : Deps) (K : Codec) (I : Implementation) (rand : ℕ → ℕ) (peer : Peer) : ℕ → PutHandler → SrvProg Unit
  | 0, _ => .ret ()
  | n + 1, h => .call .drain fun (drained : Drained) => match drained with
    | .eof | .failed => h.endOfBlocks I
    | .batch batch =>
      (h.processBatchWith onFiles storeFeedback (fun payload => SrvOp.run (.flushed payload) rfl) D K rand peer batch).attempt.bind fun
        | .ok h => serve D K I rand peer n h
        | .error _ => stopFeedback.bind fun _ => SrvOp.run (.returned false) rfl

end PutHandler

/-- `Put`, for `n` batches. -/
def servePut (D : Deps) (K : Codec) (I : Implementation) (rand : ℕ → ℕ) (peer : Peer) (n : ℕ) : SrvProg Unit :=
  if I.isReadOnly then SrvOp.run (.returned false) rfl else PutHandler.serve D K I rand peer n {}

/-! ## The feedback sender -/

/-- `sendLatest`; a failure is logged only. -/
def sendLatest : SrvProg Unit :=
  .call .loadWrite fun (w : UInt64) => .call .loadFlush fun (f : UInt64) =>
  .call (.files (.emit (.putResult w f))) fun _ => .ret ()

/-- `run` of the sender, for `n` rounds. -/
def sendLoop : ℕ → SrvProg Unit
  | 0 => .ret ()
  | n + 1 => .call .next fun (woken : Bool) => match woken with
    | true => sendLatest.bind fun _ => sendLoop n
    | false => sendLatest.bind fun _ => SrvOp.run .closeDone rfl

/-! ## Both -/

/-- The goroutines of a call. -/
inductive SrvThread where
  | handler
  | sender
  deriving DecidableEq

/-- The semantics of the goroutines of one call. -/
def srvSem : WaitSem SrvThread SrvOp SrvOp.Res (SrvState × Fs Name UInt8) SrvChoice where
  exec _ := SrvState.exec

/-- **A call** for a stream of blocks. -/
def putServer (D : Deps) (K : Codec) (I : Implementation) (rand : ℕ → ℕ) (peer : Peer) (n : ℕ) (blocks : List PutRequest)
    (fs : Fs Name UInt8) : Sys SrvThread SrvOp SrvOp.Res Err (SrvState × Fs Name UInt8) :=
  .init ({ wire := blocks, halfClosed := true }, fs) fun
    | .handler => servePut D K I rand peer n
    | .sender => if I.isReadOnly then .ret () else sendLoop n

end Klio
