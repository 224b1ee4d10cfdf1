import Klio.Lib.Handles
import Klio.Model.Server

/-!
# Reading through a handle

`repository/reader.go` and `download.go` once more, with the file that `NewReader` opens. The models of
`Format` and `Server` read a file in one operation; here the file is opened, read, and closed where the
source closes it.

* `newReaderAt`, `getWALAt`: `NewReader` and `getWAL`.
* `firstBlockOpened`, `receiveAll`, `upToClose`: how far a `Put` is.
-/

namespace Klio

open Lib

/-- A program over file handles. -/
abbrev HandleProg (α : Type) := Prog (HandleOp Name UInt8 Msg) HandleOp.Res Err α

/-! ## Get -/

/-- `NewReader`, with the handle of the reader. A file without a readable header is closed again. -/
def newReaderAt (K : Codec) (clusterName walName : Name) : HandleProg (ℕ × Reader) :=
  let walFilePath := getWALArchivePath clusterName walName
  .call (.openRead walFilePath) fun (r : Except FsErr ℕ) => match r with
    | .error e => .err (.wrap "error while opening file %s: %w" [showPath walFilePath] (.fs e))
    | .ok fd => .call (.readAll fd) fun (r : Except FsErr (List UInt8)) => match r with
      | .error e => .call (.closeRead fd) fun _ => .err (.wrap "while reading WAL file header: %w" [] (.fs e))
      | .ok data => match Reader.ofContent K walFilePath data with
        | .ok rd => .ret (fd, rd)
        | .error e => .call (.closeRead fd) fun _ => .err e

/-- `getWAL` up to its loop: the checks, and the reader. -/
def openForGet (D : Deps) (K : Codec) (peer : Peer) (clusterName walName : Name) : HandleProg (ℕ × Reader) :=
  match checkClusterName D peer clusterName with
  | .error e => .err e
  | .ok _ => match validatePathComponent D walName with
    | .error e => .err (.status .invalidArgument (.wrap "invalid WAL name: %v" [] (.name e)))
    | .ok _ => match validateWalFileName walName with
      | .error _ => .err (.status .invalidArgument (.errorf "invalid WAL name: %q" [walName]))
      | .ok _ => (newReaderAt K clusterName walName).mapErr fun e =>
        if e.isNotExist then .status .notFound (.errorf "WAL not found: %v/%v" [clusterName, walName])
        else .status .internal (.wrap "error while reading WAL (opening): %v" [] e)

/-- `getWAL`. No return closes the reader. -/
def getWALAt (D : Deps) (K : Codec) (peer : Peer) (clusterName walName : Name) : HandleProg Unit :=
  (openForGet D K peer clusterName walName).bind fun (_, walReader) =>
    (sendBlocks K (walReader.rest.length + 1) walReader).onFiles

/-! ## Put -/

namespace PutHandler

/-- `validateBlock` on the first block of a stream. -/
def firstBlockOpened (D : Deps) (K : Codec) (rand : ℕ → ℕ) (peer : Peer) : List Batch → FsProg Msg PutHandler
  | [] => .ret {}
  | batch :: _ => ({} : PutHandler).validateBlock D K rand peer batch.first

/-- The loop of `run`, up to the end of the stream. -/
def receiveAll (D : Deps) (K : Codec) (rand : ℕ → ℕ) (peer : Peer) : PutHandler → List Batch → FsProg Msg PutHandler
  | h, [] => .ret h
  | h, batch :: batches => (h.processBatch D K rand peer batch).bind fun h => receiveAll D K rand peer h batches

/-- `run` up to the `Close` of the file: everything that was received, and the rest of the buffer. -/
def upToClose (D : Deps) (K : Codec) (rand : ℕ → ℕ) (peer : Peer) (batches : List Batch) : FsProg Msg Unit :=
  (receiveAll D K rand peer {} batches).bind fun h => match h.walBuffer with
    | none => .ret ()
    | some w => w.inner.buffer.flush.bind fun out => Prog.orErr .fs out.2

end PutHandler

end Klio
