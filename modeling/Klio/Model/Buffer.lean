import Klio.Lib.Trace
import Klio.Model.Server

/-!
# The client that streams WAL

`client/sendwal/buffer/buffer.go` and `grpc.go`: data of a replication connection is collected in a
buffer, cut at the ends of segments, and sent over one stream for each segment.

* `UpOp`: what the client asks of its connection.
* `TimelineHandler`: the segment that is open, `openWAL`, `closeWAL`, `write`.
* `Data`: the buffer, `processWALData`, `flush`, `closeCurrentWAL`.
* `WalCall`, `Data.calls`: a history of calls.
-/

namespace Klio

open Lib

structure Feedback where
  flushLSN : UInt64
  writeLSN : UInt64
  replayLSN : UInt64
  deriving DecidableEq

/-- What the client asks of its connection. A stream is known by a number. -/
inductive UpOp where
  /-- Send to the feedback channel. -/
  | place (f : Feedback)
  /-- `conn.StoreWALStreaming` -/
  | storeWALStreaming (name : Name) (walStartLSN : UInt64)
  /-- `stream.SendBlock` -/
  | sendBlock (stream : ℕ) (block : List UInt8)
  /-- `stream.Close` -/
  | close (stream : ℕ)

/-- What is answered. -/
def UpOp.Res : UpOp → Type
  | .place _ => Unit
  | .storeWALStreaming _ _ => Except Err ℕ
  | .sendBlock _ _ => Except Err Unit
  | .close _ => Except Err Unit

/-- A program of the client; it fails with a panic only. -/
abbrev UpProg (α : Type) := Prog UpOp UpOp.Res Err α

def nilDereference : Err := .panics "invalid memory address or nil pointer dereference"

/-! ## The handler of a timeline -/

/-- What a handler and a buffer are created with, `NewKlioClientTimelineHandler` and `New`. -/
structure Timeline where
  tli : ℤ
  segmentSize : UInt64

/-- `KlioClientTimelineHandler` -/
structure TimelineHandler where
  stream : Option ℕ := none
  currentWALFile : Name := []
  deriving DecidableEq

def maxWriteChunkBytes : ℕ := 4 * 1024 * 1024

namespace TimelineHandler

def hasWALFileOpened (h : TimelineHandler) : Bool := h.currentWALFile != []

/-- `OpenWAL`. The name is set before the stream is there. -/
def openWAL (P : Outside) (tl : Timeline) (h : TimelineHandler) (blockpos : UInt64) : UpProg (TimelineHandler × Except Err Unit) :=
  match P.walFileName blockpos tl.tli tl.segmentSize with
  | .error e => .ret (h, .error (.wrap "while creating WAL file name (pos %v): %w" [sprintUInt64 blockpos] e))
  | .ok currentWALFile =>
    .call (.place ⟨blockpos, blockpos, blockpos⟩) fun _ =>
    .call (.storeWALStreaming currentWALFile blockpos) fun (r : Except Err ℕ) => match r with
      | .error e => .ret ({ h with currentWALFile := currentWALFile },
          .error (.wrap "while starting WAL file streaming (pos %v): %w" [sprintUInt64 blockpos] e))
      | .ok stream => .ret ({ stream := some stream, currentWALFile := currentWALFile }, .ok ())

def closeWAL (h : TimelineHandler) : UpProg (TimelineHandler × Except Err Unit) :=
  match h.stream with
  | none => .err nilDereference
  | some stream => .call (.close stream) fun (r : Except Err Unit) => match r with
    | .error e => .ret (h, .error e)
    | .ok _ => .ret ({}, .ok ())

/-- `Write`, for as many chunks as there are bytes. -/
def writeChunks (h : TimelineHandler) : ℕ → List UInt8 → UpProg (Except Err Unit)
  | 0, _ => .ret (.ok ())
  | n + 1, block =>
    if block.isEmpty then .ret (.ok ())
    else match h.stream with
      | none => .err nilDereference
      | some stream => .call (.sendBlock stream (block.take maxWriteChunkBytes)) fun (r : Except Err Unit) => match r with
        | .error e => .ret (.error e)
        | .ok _ => writeChunks h n (block.drop maxWriteChunkBytes)

def write (h : TimelineHandler) (block : List UInt8) : UpProg (Except Err Unit) := h.writeChunks block.length block

end TimelineHandler

/-! ## The buffer -/

structure Data where
  walHandler : TimelineHandler := {}
  localWriteLSN : UInt64 := 0
  buffer : List UInt8 := []
  deriving DecidableEq

namespace Data

def flush (wal : Data) : UpProg (Data × Except Err Unit) :=
  if wal.walHandler.hasWALFileOpened = false ∨ wal.buffer = [] then .ret (wal, .ok ())
  else (wal.walHandler.write wal.buffer).bind fun
    | .error e => .ret (wal, .error (.wrap "while writing to WAL handler: %w" [] e))
    | .ok _ => .ret ({ wal with buffer := [] }, .ok ())

def closeCurrentWAL (wal : Data) : UpProg (Data × Except Err Unit) :=
  if wal.walHandler.hasWALFileOpened = false then .ret (wal, .ok ())
  else wal.flush.bind fun
    | (wal, .error e) => .ret (wal, .error (.wrap "while flushing WAL handler: %w" [] e))
    | (wal, .ok _) => wal.walHandler.closeWAL.bind fun
      | (walHandler, .error e) =>
        .ret ({ wal with walHandler := walHandler }, .error (.wrap "while closing current WAL file: %w" [] e))
      | (walHandler, .ok _) => .ret ({ wal with walHandler := walHandler }, .ok ())

def openWALPos (P : Outside) (tl : Timeline) (wal : Data) (blockpos : UInt64) : UpProg (Data × Except Err Unit) :=
  (wal.walHandler.openWAL P tl blockpos).bind fun
    | (walHandler, .error e) => .ret ({ wal with walHandler := walHandler }, .error e)
    | (walHandler, .ok _) => .ret ({ wal with walHandler := walHandler, localWriteLSN := blockpos }, .ok ())

/-- The segment that data belongs to is open, `openWALPos` having been called if it was not. -/
def ensureOpen (P : Outside) (tl : Timeline) (wal : Data) (blockpos : UInt64) : UpProg (Data × Except Err Unit) :=
  if wal.walHandler.hasWALFileOpened = false then wal.openWALPos P tl blockpos else .ret (wal, .ok ())

/-- `writeToWALFile`: a buffer takes everything. -/
def writeToWALFile (wal : Data) (data : List UInt8) : Data :=
  { wal with buffer := wal.buffer ++ data, localWriteLSN := wal.localWriteLSN + UInt64.ofNat data.length }

/-- How much of what is left goes to the segment. -/
def bytesToWrite (tl : Timeline) (xlogoff bytesLeft : UInt64) : UInt64 :=
  if xlogoff + bytesLeft > tl.segmentSize then tl.segmentSize - xlogoff else bytesLeft

/-- The loop of `ProcessWALData`, for `n` rounds; a byte is written in each. -/
def processLoop (P : Outside) (tl : Timeline) : ℕ → Data → List UInt8 → UInt64 → UInt64 → UpProg (Data × Except Err Unit)
  | 0, wal, data, _, _ => if data = [] then .ret (wal, .ok ()) else .err (.panics "the loop does not end")
  | n + 1, wal, data, blockpos, xlogoff =>
    if data = [] then .ret (wal, .ok ())
    else
      let size := bytesToWrite tl xlogoff (UInt64.ofNat data.length)
      (wal.ensureOpen P tl blockpos).bind fun
        | (wal, .error e) => .ret (wal, .error e)
        | (wal, .ok _) =>
          let wal := wal.writeToWALFile (data.take size.toNat)
          if wal.localWriteLSN % tl.segmentSize = 0 then
            wal.closeCurrentWAL.bind fun
              | (wal, .error e) => .ret (wal, .error e)
              | (wal, .ok _) => processLoop P tl n wal (data.drop size.toNat) (blockpos + size) 0
          else processLoop P tl n wal (data.drop size.toNat) (blockpos + size) (xlogoff + size)

def processWALData (P : Outside) (tl : Timeline) (wal : Data) (data : List UInt8) (blockpos : UInt64) : UpProg (Data × Except Err Unit) :=
  if tl.segmentSize = 0 then .err (.panics "integer divide by zero")
  else
    let xlogoff := blockpos % tl.segmentSize
    let currentOffset := wal.localWriteLSN % tl.segmentSize
    if wal.walHandler.hasWALFileOpened = false then
      if xlogoff ≠ 0 then
        .ret (wal, .error (.errorf "received write-ahead log record for offset %v with no file open" [sprintUInt64 xlogoff]))
      else processLoop P tl data.length wal data blockpos xlogoff
    else if currentOffset ≠ xlogoff then
      .ret (wal, .error (.errorf "Unexpected WAL data offset: %08x, expected: %08x"
        [sprintUInt64 xlogoff, sprintUInt64 currentOffset]))
    else processLoop P tl data.length wal data blockpos xlogoff

end Data

/-! ## Histories -/

/-- A call of the streaming loop. -/
inductive WalCall where
  | data (bytes : List UInt8) (blockpos : UInt64)
  | flush
  | close

def WalCall.run (P : Outside) (tl : Timeline) (wal : Data) : WalCall → UpProg (Data × Except Err Unit)
  | .data bytes blockpos => wal.processWALData P tl bytes blockpos
  | .flush => wal.flush
  | .close => wal.closeCurrentWAL

/-- Calls one after the other, whatever they return. -/
def Data.calls (P : Outside) (tl : Timeline) : Data → List WalCall → UpProg Data
  | wal, [] => .ret wal
  | wal, c :: cs => (c.run P tl wal).bind fun out => calls P tl out.1 cs

/-- `manageWALStream`: the calls up to the first that fails, and the end. -/
def manageWALStream (P : Outside) (tl : Timeline) : Data → List WalCall → UpProg (Except Err Unit)
  | wal, [] => wal.closeCurrentWAL.bind fun out => .ret out.2
  | wal, c :: cs => (c.run P tl wal).bind fun
    | (wal, .ok _) => manageWALStream P tl wal cs
    | (wal, .error _) => wal.closeCurrentWAL.bind fun out => .ret out.2

end Klio
