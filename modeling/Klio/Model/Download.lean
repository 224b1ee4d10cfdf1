import Klio.Lib.Sink
import Klio.Model.Server

/-!
# Downloading a WAL file

The client's side of `Get`, `grpcclient/waldownloader.go`, and what gRPC makes of a call.

* `GetCall`: what the client sees of a call; `Carries`: what it may see, given what the handler has
  sent and returned.
* `getWALStreaming`: the client writes what it receives, and pads a partial file with zeros.
* `Downloads`, `download`: both sides together, with any faults and without.
-/

namespace Klio

open Lib

/-! ## Calls -/

structure GetResult where
  walBlock : List UInt8
  segmentSize : UInt64
  deriving DecidableEq

/-- What the client sees of a call: it cannot be started, or `Recv` returns these messages and then
`io.EOF` or an error. -/
inductive GetCall where
  | refused (e : Err)
  | opened (results : List GetResult) (last : Option Err)

/-- **What gRPC may make of a call** whose handler has sent these messages and returned `res`: they
arrive in order, followed by the end of the stream or the status; or an error cuts the call short. -/
inductive Carries (sent : List GetResult) : Except Err Unit → GetCall → Prop where
  | returned : Carries sent (.ok ()) (.opened sent none)
  | failed (e : Err) : Carries sent (.error e) (.opened sent (some e))
  | refused (res : Except Err Unit) (e : Err) : Carries sent res (.refused e)
  | cut (res : Except Err Unit) (results : List GetResult) (e : Err) (h : results <+: sent) :
    Carries sent res (.opened results (some e))

/-- The messages of a `Get` call that were sent. -/
def sentResults (log : List (Unit × Msg × Bool)) : List GetResult :=
  log.filterMap fun
    | (_, .getResult walBlock segmentSize, true) => some ⟨walBlock, segmentSize⟩
    | _ => none

/-- `Get` served from a repository with the faults `cs`: what is sent, and what the handler returns. -/
def serveGet (D : Deps) (K : Codec) (peer : Peer) (clusterName walName : Name) (fs : Fs Name UInt8)
    (cs : ℕ → Option ℕ) : List GetResult × Except Err Unit :=
  let out := (getWAL D K peer clusterName walName).eval (sem Unit Name UInt8 Msg) () cs ⟨fs, []⟩
  (sentResults out.2.log, out.1)

/-! ## The client -/

inductive ClientErr where
  /-- `ErrMissingWALFile` -/
  | missingWALFile
  /-- `IncompleteTransmissionError` -/
  | incompleteTransmission (inner : Err) (writtenBytes : ℤ)
  | other (e : Err)
  deriving DecidableEq

/-- `status.Code(err) == codes.NotFound` -/
def Err.isNotFound : Err → Bool
  | .status .notFound _ => true
  | .wrap _ _ e => e.isNotFound
  | _ => false

/-- The value of an `int` after an operation on 64 bits. -/
def toInt64 (n : ℤ) : ℤ := n.bmod (2 ^ 64)

/-- `safecast.Convert[int]` -/
def convertInt (n : UInt64) : Except Err ℤ :=
  if n.toNat < 2 ^ 63 then .ok n.toNat else .error (.new "conversion issue: maximum value for this type exceeded")

section

variable {O : Type} {R : O → Type} (write : String → List UInt8 → Prog O R ClientErr Unit)

/-- The loop of `GetWALStreaming`; it returns `expectedSize` and `writtenBytes`. -/
def receiveBlocks (last : Option Err) : List GetResult → ℤ → ℤ → Prog O R ClientErr (ℤ × ℤ)
  | [], expectedSize, writtenBytes => match last with
    | none => .ret (expectedSize, writtenBytes)
    | some e =>
      if e.isNotFound then .err .missingWALFile
      else if 0 < writtenBytes then .err (.incompleteTransmission e writtenBytes)
      else .err (.other (.wrap "while receiving a WAL file block: %w" [] e))
  | result :: results, expectedSize, writtenBytes =>
    match if expectedSize = 0 then convertInt result.segmentSize else .ok expectedSize with
    | .error e => .err (.other (.wrap "while converting segment size: %w" [] e))
    | .ok expectedSize =>
      (write "while writing WAL file: %w" result.walBlock).bind fun _ =>
      receiveBlocks last results expectedSize (toInt64 (writtenBytes + result.walBlock.length))

/-- The block size of `padWithZeros`. -/
def padBlockSize : ℤ := 1024 * 1024

/-- The loop of `padWithZeros`. Every round writes a byte or more, so that `fuel` covers it. -/
def padLoop : ℕ → ℤ → ℤ → Prog O R ClientErr Unit
  | 0, _, _ => .ret ()
  | fuel + 1, zeroBytesToWrite, totalWritten =>
    if totalWritten < zeroBytesToWrite then
      let toWrite := min padBlockSize (zeroBytesToWrite - totalWritten)
      (write "while padding WAL file: %w" (List.replicate toWrite.toNat 0)).bind fun _ =>
      padLoop fuel zeroBytesToWrite (totalWritten + toWrite)
    else .ret ()

def padWithZeros (zeroBytesToWrite : ℤ) : Prog O R ClientErr Unit := padLoop write zeroBytesToWrite.toNat zeroBytesToWrite 0

/-- `GetWALStreaming`, writing with `write`, which reports a failure under the text it is given. -/
def getWALStreaming (walName : Name) : GetCall → Prog O R ClientErr Unit
  | .refused e =>
    if e.isNotFound then .err .missingWALFile
    else .err (.other (.wrap "while starting downloading a WAL file: %w" [] e))
  | .opened results last =>
    (receiveBlocks write last results 0 0).bind fun (expectedSize, writtenBytes) =>
    if hasSuffix walName partialSuffix ∧ writtenBytes < expectedSize then
      padWithZeros write (toInt64 (expectedSize - writtenBytes))
    else .ret ()

end

/-- `Write` on an `io.Writer`. -/
def sinkWrite (text : String) (bs : List UInt8) : SinkProg UInt8 ClientErr Unit :=
  .call (.write bs) fun (r : Except FsErr Unit) => match r with
    | .ok _ => .ret ()
    | .error e => .err (.other (.wrap text [] (.fs e)))

/-! ## Both sides -/

/-- **A download may end so**, with any faults on the server, in the connection and in writing. -/
def Downloads (D : Deps) (K : Codec) (peer : Peer) (clusterName walName : Name) (fs : Fs Name UInt8)
    (res : Except ClientErr Unit) (written : List UInt8) : Prop :=
  ∃ cs call cs', Carries (serveGet D K peer clusterName walName fs cs).1 (serveGet D K peer clusterName walName fs cs).2 call ∧
    (getWALStreaming sinkWrite walName call).eval (Sink.sinkSem UInt8) () cs' [] = (res, written)

/-- What the client sees of a call that is not disturbed. -/
def carried (out : List GetResult × Except Err Unit) : GetCall :=
  .opened out.1 (match out.2 with
    | .ok _ => none
    | .error e => some e)

/-- A download without faults. -/
def download (D : Deps) (K : Codec) (peer : Peer) (clusterName walName : Name) (fs : Fs Name UInt8) :
    Except ClientErr Unit × List UInt8 :=
  (getWALStreaming sinkWrite walName (carried (serveGet D K peer clusterName walName fs fun _ => none))).eval
    (Sink.sinkSem UInt8) () (fun _ => none) []

end Klio
