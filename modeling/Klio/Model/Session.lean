import Klio.Model.Buffer
import Klio.Model.Serve

/-!
# The client and the server together

`client/klioclient/grpcclient/waluploader.go` over one gRPC stream for each segment, and the calls of
`Put` that serve them: the goroutine of the client that streams, the one that reads the acknowledgements
of a stream, and the handler and the feedback sender of its call, all at once.

gRPC itself is not part of this repository. Blocks arrive in the order in which they were sent; a `Send`
that fails has aborted the stream, and one after the end of the stream was seen, or after `CloseSend`,
fails; what the client sees of the end of a call is a parameter, `SeesEOF`.

* `SesOp`, `SesState`: what the goroutines do, and what they share.
* `sendBlock`, `closeStream`, `feedbackReader`: `grpcWALStream`.
* `clientServer`: a client, and all the calls it can start; `streamingClient` and `segmentClient` are clients.
* `uploadFile`: `client/klioclient/grpcclient/walclient.go`; `uploadServer`: it, and its call.
-/

namespace Klio

open Lib

/-! ## Operations -/

/-- What a stream was started with: the fields of `grpcWALStream` that a request is made of. -/
structure GrpcWALStream where
  segmentSize : UInt64
  walName : Name
  walStartLSN : UInt64
  sendToTier2 : Bool

def GrpcWALStream.request (clusterName : Name) (g : GrpcWALStream) (block : List UInt8) : PutRequest :=
  ⟨clusterName, g.walName, block, g.segmentSize, g.walStartLSN, g.sendToTier2⟩

/-- What `Recv` returns to the client. -/
inductive Recvd where
  | result (writeLsn flushLsn : UInt64)
  | eof
  | failed

/-- What a goroutine of the client or of the server does in one step. -/
inductive SesOp where
  /-- Send to the feedback channel. -/
  | place (f : Feedback)
  /-- `c.Put(ctx)` -/
  | put (g : GrpcWALStream)
  /-- `ackedErr`: whether the reader of the stream has ended with an error. -/
  | ackedErr (k : ℕ)
  /-- `innerStream.Send` -/
  | send (k : ℕ) (block : List UInt8)
  /-- `innerStream.CloseSend` -/
  | closeSend (k : ℕ)
  /-- `<-g.ackDone`, and whether there was an error. -/
  | awaitAck (k : ℕ)
  /-- `innerStream.Recv` -/
  | recv (k : ℕ)
  /-- `g.ackErr` is set or not, and `close(g.ackDone)`. -/
  | closeAck (k : ℕ) (failed : Bool)
  /-- An operation of the server, in the call for the stream. -/
  | srv (k : ℕ) (o : SrvOp)

/-- What an operation answers. -/
def SesOp.Res : SesOp → Type
  | .place _ | .closeAck _ _ => Unit
  | .put _ => Except Err ℕ
  | .ackedErr _ | .awaitAck _ => Bool
  | .send _ _ | .closeSend _ => Except Err Unit
  | .recv _ => Recvd
  | .srv _ o => o.Res

/-- A program of a goroutine. -/
abbrev SesProg (α : Type) := Prog SesOp SesOp.Res Err α

/-- Both ends of a stream. -/
structure StreamState where
  info : GrpcWALStream := ⟨0, [], 0, false⟩
  srv : SrvState := {}
  /-- How many results the client has read. -/
  received : ℕ := 0
  /-- Whether the reader has ended, and with an error. -/
  ackDone : Option Bool := none

/-- What all goroutines share. -/
structure SesState where
  /-- Streams with smaller numbers have been started. -/
  opened : ℕ := 0
  streams : ℕ → StreamState := fun _ => {}
  /-- What was placed on the feedback channel. -/
  feedback : List Feedback := []
  files : Fs Name UInt8

/-- How the client sees the end of a call, from what has become of it: `true` is `io.EOF`. -/
abbrev SeesEOF := SrvState → Bool

namespace SesState

def set (s : SesState) (k : ℕ) (t : StreamState) : SesState := { s with streams := Function.update s.streams k t }

@[simp] theorem set_streams_self (s : SesState) (k : ℕ) (t : StreamState) : (s.set k t).streams k = t := Function.update_self ..

@[simp] theorem set_streams_of_ne (s : SesState) {j k : ℕ} (t : StreamState) (h : j ≠ k) : (s.set k t).streams j = s.streams j :=
  Function.update_of_ne h _ _

/-- **What an operation answers and does**, or nothing as long as it has to wait. -/
def exec (clusterName : Name) (sees : SeesEOF) : (o : SesOp) → SrvChoice → SesState → Option (o.Res × SesState)
  | .place f, _, s => some ((), { s with feedback := s.feedback ++ [f] })
  | .put g, c, s => match c with
    | .fault _ => some ((.error (.new "unavailable") : Except Err ℕ), s)
    | _ => some ((.ok s.opened : Except Err ℕ), { s.set s.opened { info := g } with opened := s.opened + 1 })
  | .ackedErr k, _, s => some ((s.streams k).ackDone == some true, s)
  | .send k block, c, s =>
    let t := s.streams k
    if t.srv.broken = true ∨ t.srv.halfClosed = true ∨ t.ackDone = some true then
      some ((.error .eof : Except Err Unit), s)
    else match c with
      | .fault _ => some ((.error (.new "unavailable") : Except Err Unit), s.set k { t with srv := { t.srv with broken := true } })
      | _ => some ((.ok () : Except Err Unit),
          s.set k { t with srv := { t.srv with wire := t.srv.wire ++ [t.info.request clusterName block] } })
  | .closeSend k, c, s => match c with
    | .fault _ => some ((.error (.new "unavailable") : Except Err Unit), s)
    | _ => some ((.ok () : Except Err Unit), s.set k { s.streams k with srv := { (s.streams k).srv with halfClosed := true } })
  | .awaitAck k, _, s => match (s.streams k).ackDone with
    | some failed => some (failed, s)
    | none => none
  | .recv k, c, s =>
    let t := s.streams k
    if s.opened ≤ k then none
    else match c with
      | .ended => some (.failed, s)
      | _ => match t.srv.sent[t.received]? with
        | some x => some (.result x.writeLsn x.flushLsn, s.set k { t with received := t.received + 1 })
        | none => match t.srv.returned with
          | none => none
          | some _ => some (if sees t.srv then .eof else .failed, s)
  | .closeAck k failed, _, s => some ((), s.set k { s.streams k with ackDone := some failed })
  | .srv k o, c, s =>
    if s.opened ≤ k then none
    else match SrvState.exec o c ((s.streams k).srv, s.files) with
      | none => none
      | some (r, (srv, files)) => some (r, { s.set k { s.streams k with srv := srv } with files := files })

end SesState

/-! ## `grpcWALStream` -/

/-- What the reader records when the stream has ended with an error. -/
def ackErr : Err := .wrap "error while receiving WAL block ack: %w" [] (.new "rpc error")

def sendBlock (k : ℕ) (block : List UInt8) : SesProg (Except Err Unit) :=
  .call (.ackedErr k) fun (failed : Bool) =>
  if failed then .ret (.error ackErr)
  else .call (.send k block) fun (r : Except Err Unit) => match r with
    | .ok _ => .ret (.ok ())
    | .error e => .ret (.error (.wrap "error while sending WAL block (send streaming len=%v): %w" [Nat.toDigits 10 block.length] e))

/-- `Close` -/
def closeStream (k : ℕ) : SesProg (Except Err Unit) :=
  .call (.closeSend k) fun (r : Except Err Unit) => match r with
    | .error e => .ret (.error e)
    | .ok _ => .call (.awaitAck k) fun (failed : Bool) =>
      .ret (if failed then .error ackErr else .ok ())

/-- The goroutine of `startFeedbackReader`, for `n` rounds. -/
def feedbackReader (k : ℕ) : ℕ → SesProg Unit
  | 0 => .ret ()
  | n + 1 => .call (.recv k) fun (r : Recvd) => match r with
    | .eof => .call (.closeAck k false) fun _ => .ret ()
    | .failed => .call (.closeAck k true) fun _ => .ret ()
    | .result writeLsn flushLsn => .call (.place ⟨flushLsn, writeLsn, flushLsn⟩) fun _ => feedbackReader k n

/-- `StoreWALStreaming`, `SendBlock` and `Close` of the connection. -/
def connectionOps (tl : Timeline) (sendToTier2 : Bool) : (o : UpOp) → SesProg o.Res
  | .place f => .call (.place f) fun _ => .ret ()
  | .storeWALStreaming name walStartLSN => .call (.put ⟨tl.segmentSize, name, walStartLSN, sendToTier2⟩) fun (r : Except Err ℕ) =>
    .ret (match r with
      | .ok k => .ok k
      | .error e => .error (.wrap "while starting uploading a WAL file: %w" [] e) : Except Err ℕ)
  | .sendBlock k block => sendBlock k block
  | .close k => closeStream k

/-! ## Everything together -/

/-- The goroutines. -/
inductive SesThread where
  | client
  | reader (k : ℕ)
  | handler (k : ℕ)
  | sender (k : ℕ)
  deriving DecidableEq

/-- The semantics of all goroutines. -/
def sesSem (clusterName : Name) (sees : SeesEOF) : WaitSem SesThread SesOp SesOp.Res SesState SrvChoice where
  exec _ := SesState.exec clusterName sees

def onStream {α : Type} (k : ℕ) (p : SrvProg α) : SesProg α := p.refine fun o => .call (.srv k o) fun r => .ret r

/-- The programs of the server and the readers of the client; `n` bounds their rounds. -/
structure Server where
  deps : Deps
  codec : Codec
  impl : Implementation
  rand : ℕ → ℕ → ℕ
  peer : Peer
  rounds : ℕ

/-- **A client and all the calls it can start.** -/
def clientServer (S : Server) (client : SesProg Unit) (fs : Fs Name UInt8) : Sys SesThread SesOp SesOp.Res Err SesState :=
  .init { files := fs } fun
    | .client => client
    | .reader k => feedbackReader k S.rounds
    | .handler k => onStream k (servePut S.deps S.codec S.impl (S.rand k) S.peer S.rounds)
    | .sender k => onStream k (if S.impl.isReadOnly then .ret () else sendLoop S.rounds)

def streamingClient (P : Outside) (tl : Timeline) (sendToTier2 : Bool) (cs : List WalCall) : SesProg Unit :=
  ((manageWALStream P tl {} cs).refine (connectionOps tl sendToTier2)).bind fun _ => .ret ()

/-- `SendBlock` for some blocks, until one fails. -/
def sendAll (k : ℕ) : List (List UInt8) → SesProg Unit
  | [] => .ret ()
  | block :: blocks => (sendBlock k block).bind fun
    | .ok _ => sendAll k blocks
    | .error e => .err e

/-- A client that sends one segment in these blocks and closes it. It returns when no call has failed. -/
def segmentClient (g : GrpcWALStream) (blocks : List (List UInt8)) : SesProg Unit :=
  .call (.put g) fun (r : Except Err ℕ) => match r with
    | .error e => .err e
    | .ok k => (sendAll k blocks).bind fun _ => (closeStream k).bind fun
      | .ok _ => .ret ()
      | .error e => .err e

/-! ## `UploadFile` -/

/-- The size of the buffer that `UploadFile` reads into. -/
def uploadBufferSize : ℕ := 4096

def errNoResultReceived : Err := .new "server closed stream without sending a result"

/-- The loop of `UploadFile` over what is left of the content, and `CloseSend`. A read that finds nothing
left returns `io.EOF`, and an empty block is sent for it. There are at most as many rounds as there are
bytes left, and the last one. -/
def uploadLoop (k : ℕ) : ℕ → List UInt8 → SesProg Unit
  | 0, _ => .err (.panics "the loop does not end")
  | n + 1, rest =>
    .call (.send k (rest.take uploadBufferSize)) fun (r : Except Err Unit) => match r with
      | .error e => .err (.wrap "error while sending file block (sending via GRPC): %w" [] e)
      | .ok _ => .call (.recv k) fun (r : Recvd) => match r with
        | .eof => .err errNoResultReceived
        | .failed => .err (.wrap "while flushing WAL file: %w" [] (.new "rpc error"))
        | .result _ _ =>
          if rest = [] then
            .call (.closeSend k) fun (r : Except Err Unit) => match r with
              | .error e => .err (.wrap "while flushing WAL file: %w" [] e)
              | .ok _ => .ret ()
          else uploadLoop k n (rest.drop uploadBufferSize)

def uploadFile (name : Name) (content : List UInt8) (sendToTier2 : Bool) : SesProg Unit :=
  .call (.put ⟨UInt64.ofNat content.length, name, 0, sendToTier2⟩) fun (r : Except Err ℕ) => match r with
    | .error e => .err (.wrap "while starting uploading a file: %w" [] e)
    | .ok k => uploadLoop k (content.length + 1) content

/-- **A client that reads the results of its call itself**, and the calls it can start. -/
def uploadServer (S : Server) (client : SesProg Unit) (fs : Fs Name UInt8) : Sys SesThread SesOp SesOp.Res Err SesState :=
  .init { files := fs } fun
    | .client => client
    | .reader _ => .ret ()
    | .handler k => onStream k (servePut S.deps S.codec S.impl (S.rand k) S.peer S.rounds)
    | .sender k => onStream k (if S.impl.isReadOnly then .ret () else sendLoop S.rounds)

end Klio
