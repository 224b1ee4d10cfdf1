import Klio.Model.Put
import Klio.Model.Repository

/-!
# The WAL server

The other handlers of `server/walserver`: `download.go`, `metadata.go`, `retention.go`,
`streaming.go` and `backup.go`; how `walserver.go`, `klioserver.go`, `server/tier2.go` and
`cmd/server` set the server up.

* `Rpc`: a call of the WAL service; `Rpc.handler` is what serves it, `Rpc.respond` with its answer.
* `tier2WALServer`: the server that `Tier2WALServer.Serve` starts.
-/

namespace Klio

open Lib

/-! ## Messages -/

structure TierRetentionPolicy where
  latest : ℤ
  deriving DecidableEq

structure RetentionPolicy where
  tier1Policy : Option TierRetentionPolicy := none
  tier2Policy : Option TierRetentionPolicy := none
  deriving DecidableEq

/-- `WALGap`, with its time in nanoseconds. -/
structure WALGap where
  ts : ℤ
  start : Name
  stop : Name
  deriving DecidableEq

structure ClusterMetadata where
  systemId : Name
  gaps : List WALGap := []
  deriving DecidableEq

/-- A request about a cluster and a WAL position: `RequestWALStartRequest` and
`ResetWALStreamRequest`. -/
structure WALStartRequest where
  clusterName : Name
  systemId : Name
  currentWalName : Name

structure CloseBackupRequest where
  clusterName : Name
  timeline : ℤ
  startWal : Name
  endWal : Name
  segmentSize : UInt64
  sendToTier2 : Bool
  tier2CompressionPolicy : Name

structure CloseBackupResult where
  tier2Schedule : Bool
  missingWalFiles : List Name

/-- **Outside code of the handlers**: protocol buffers, JSON and the LSN arithmetic of the
machinery library. `unmarshalCompression` gives the policy a text describes, if it does. -/
structure Outside where
  marshalPolicy : RetentionPolicy → Except Err (List UInt8)
  unmarshalPolicy : List UInt8 → Option RetentionPolicy
  marshalMetadata : ClusterMetadata → Except Err (List UInt8)
  unmarshalMetadata : List UInt8 → Option ClusterMetadata
  unmarshalCompression : Name → Option Name
  lsnStartFromWALName : Name → UInt64 → Except Err Name
  parseLSN : Name → Except Err UInt64
  walFileName : UInt64 → ℤ → UInt64 → Except Err Name
  unmarshal_policy : ∀ p b, marshalPolicy p = .ok b → unmarshalPolicy b = some p
  unmarshal_metadata : ∀ m b, marshalMetadata m = .ok b → unmarshalMetadata b = some m

/-- The checks at the start of every handler. -/
def checkClusterName (D : Deps) (peer : Peer) (clusterName : Name) : Except Err Unit :=
  match validatePathComponent D clusterName with
  | .error e => .error (.status .invalidArgument (.wrap "invalid cluster name: %v" [] (.name e)))
  | .ok _ => authorizeClusterName peer clusterName

/-- Run a handler on requests for an authorized cluster. -/
def withClusterName {α : Type} (D : Deps) (peer : Peer) (clusterName : Name) (p : FsProg Msg α) : FsProg Msg α :=
  match checkClusterName D peer clusterName with
  | .error e => .err e
  | .ok _ => p

def unlessReadOnly {α : Type} (I : Implementation) (p : FsProg Msg α) : FsProg Msg α :=
  if I.isReadOnly then .err (.status .failedPrecondition (.new "read only repository")) else p

/-! ## Small files -/

def metadataFileName : Name := "metadata".toList

def retentionPolicyFileName : Name := "retention_policy".toList

/-- Store one block as a file. `CloseMarkDone` is deferred: it runs when the write has failed as
well, and its own error is logged. -/
def storeBlock (K : Codec) (rand : ℕ → ℕ) (clusterName name : Name) (data : List UInt8) (creating writing : Err → Err) :
    FsProg Msg Unit :=
  ((newWriter K rand ⟨clusterName, name, UInt64.ofNat data.length, 0⟩).mapErr creating).bind fun walWriter =>
  (walWriter.writeBlock K data).bind fun out =>
  out.1.closeMarkDone.bind fun _ => match out.2 with
    | .ok _ => .ret ()
    | .error e => .err (writing e)

def getClusterMetadata (K : Codec) (P : Outside) (clusterName : Name) : FsProg Msg ClusterMetadata :=
  (newReader K clusterName metadataFileName).bind fun walReader => match (walReader.readBlock K).1 with
    | .error e => .err e
    | .ok data => match P.unmarshalMetadata data with
      | none => .err (.new "incoherent cluster metadata")
      | some metadata => .ret metadata

def writeClusterMetadata (K : Codec) (P : Outside) (rand : ℕ → ℕ) (clusterName : Name) (metadata : ClusterMetadata) :
    FsProg Msg Unit :=
  match P.marshalMetadata metadata with
  | .error e => .err (.wrap "internal error while marshalling protobuf data: %w" [] e)
  | .ok data => storeBlock K rand clusterName metadataFileName data id id

/-- `GetClusterRetentionPolicy`: no file, or a file without a block, is no policy. -/
def getClusterRetentionPolicy (K : Codec) (P : Outside) (clusterName : Name) : FsProg Msg RetentionPolicy :=
  (newReader K clusterName retentionPolicyFileName).attempt.bind fun
    | .error e => if e.isNotExist then .ret {} else .err e
    | .ok walReader => match (walReader.readBlock K).1 with
      | .error e => if e.isEOF then .ret {} else .err e
      | .ok data => match P.unmarshalPolicy data with
        | none => .err (.new "incoherent cluster metadata")
        | some policy => .ret policy

/-! ## Handlers -/

/-- `SetRetentionPolicy`. A policy that is not set is marshalled as nothing. -/
def setRetentionPolicy (D : Deps) (K : Codec) (P : Outside) (rand : ℕ → ℕ) (peer : Peer) (clusterName : Name)
    (policy : Option RetentionPolicy) : FsProg Msg Unit :=
  withClusterName D peer clusterName (match policy.elim (.ok []) P.marshalPolicy with
    | .error e => .err (.wrap "internal error while marshalling protobuf data: %w" [] e)
    | .ok retentionPolicy => storeBlock K rand clusterName retentionPolicyFileName retentionPolicy
        (.wrap "internal error while creating WAL writer: %w" []) (.wrap "internal error while writing WAL block: %w" []))

def getRetentionPolicy (D : Deps) (K : Codec) (P : Outside) (peer : Peer) (clusterName : Name) :
    FsProg Msg RetentionPolicy :=
  withClusterName D peer clusterName ((getClusterRetentionPolicy K P clusterName).mapErr fun e =>
    .status .internal (.wrap "error while reading cluster retention policy: %v" [] e))

def getMetadata (D : Deps) (K : Codec) (P : Outside) (peer : Peer) (clusterName : Name) : FsProg Msg ClusterMetadata :=
  withClusterName D peer clusterName ((getClusterMetadata K P clusterName).mapErr fun e =>
    if e.isNotExist then .status .notFound (.new "not found")
    else .status .internal (.wrap "error while reading cluster metadata: %v" [] e))

def latestWALGapEnd (gaps : List WALGap) : Name := latestName (gaps.map WALGap.stop)

/-- `RequestWALStart` from the second step on. -/
def negotiateWALStart (metadata : ClusterMetadata) (req : WALStartRequest) : FsProg Msg Name :=
  if metadata.systemId ≠ req.systemId then
    .err (.status .invalidArgument (.errorf "invalid system ID, expected %q" [metadata.systemId]))
  else
    ((getLatestWALFileForCluster req.clusterName).mapErr fun _ =>
      .status .internal (.new "error while reading WAL directory")).bind fun latestStoredWAL =>
    let gapEnd := latestWALGapEnd metadata.gaps
    let serverSideWALFile := if latestStoredWAL < gapEnd then gapEnd else latestStoredWAL
    .ret (if serverSideWALFile = [] then req.currentWalName else serverSideWALFile)

def requestWALStart (D : Deps) (K : Codec) (P : Outside) (I : Implementation) (rand : ℕ → ℕ) (peer : Peer)
    (req : WALStartRequest) : FsProg Msg Name :=
  unlessReadOnly I (withClusterName D peer req.clusterName
    ((getClusterMetadata K P req.clusterName).attempt.bind fun
      | .ok metadata => negotiateWALStart metadata req
      | .error e =>
        if e.isNotExist then
          ((writeClusterMetadata K P rand req.clusterName ⟨req.systemId, []⟩).mapErr fun e =>
            .status .internal (.wrap "error while writing cluster metadata: %v" [] e)).bind fun _ =>
          negotiateWALStart ⟨req.systemId, []⟩ req
        else .err (.status .internal (.wrap "error while reading cluster metadata: %v" [] e))))

/-- `ResetWALStream`, at the time `now`. -/
def resetWALStream (D : Deps) (K : Codec) (P : Outside) (I : Implementation) (rand : ℕ → ℕ) (now : ℤ) (peer : Peer)
    (req : WALStartRequest) : FsProg Msg Name :=
  unlessReadOnly I (withClusterName D peer req.clusterName
    (((getClusterMetadata K P req.clusterName).mapErr fun e =>
        .status .internal (.wrap "error while reading cluster metadata: %v" [] e)).bind fun metadata =>
      if metadata.systemId ≠ req.systemId then
        .err (.status .invalidArgument (.errorf "invalid system ID, expected %q" [metadata.systemId]))
      else
        ((getLatestWALFileForCluster req.clusterName).mapErr fun _ =>
          .status .internal (.new "error while reading WAL directory")).bind fun latestStoredWAL =>
        if latestStoredWAL = [] then .err (.status .invalidArgument (.new "empty WAL archive"))
        else if ¬ latestStoredWAL < req.currentWalName then
          .err (.status .invalidArgument
            (.errorf "proposed WAL starting point too old (latest WAL archived): %q" [latestStoredWAL]))
        else
          ((writeClusterMetadata K P rand req.clusterName
              { metadata with gaps := metadata.gaps ++ [⟨now, latestStoredWAL, req.currentWalName⟩] }).mapErr fun e =>
            .status .internal (.wrap "error while writing cluster metadata: %v" [] e)).bind fun _ =>
          .ret req.currentWalName))

/-- The loop of `getWAL`. Every block takes eight bytes or more, so that `fuel` covers it. -/
def sendBlocks (K : Codec) : ℕ → Reader → FsProg Msg Unit
  | 0, _ => .ret ()
  | fuel + 1, r => match r.readBlock K with
    | (.ok readBytes, r) =>
      (PutHandler.send "error while writing WAL block (sending to client GRPC): %v"
        (.getResult readBytes r.getFileLength)).bind fun _ => sendBlocks K fuel r
    | (.error e, r) =>
      if e.isEOF then
        PutHandler.send "error while writing WAL block (sending to client GRPC): %v" (.getResult [] r.getFileLength)
      else .err (.status .internal (.wrap "error while reading WAL (reading into buffer): %v" [] e))

/-- `Get` -/
def getWAL (D : Deps) (K : Codec) (peer : Peer) (clusterName walName : Name) : FsProg Msg Unit :=
  withClusterName D peer clusterName (match validatePathComponent D walName with
    | .error e => .err (.status .invalidArgument (.wrap "invalid WAL name: %v" [] (.name e)))
    | .ok _ => match validateWalFileName walName with
      | .error _ => .err (.status .invalidArgument (.errorf "invalid WAL name: %q" [walName]))
      | .ok _ =>
        ((newReader K clusterName walName).mapErr fun e =>
          if e.isNotExist then .status .notFound (.errorf "WAL not found: %v/%v" [clusterName, walName])
          else .status .internal (.wrap "error while reading WAL (opening): %v" [] e)).bind fun walReader =>
        sendBlocks K (walReader.rest.length + 1) walReader)

def stillRunning : Err := .new "the loop has not ended"

/-- The loop of `checkWALFiles`. A position that wraps around need not pass the end, so the rounds are bounded
by `fuel`; there is no list without a last round. -/
def missingWALFiles (P : Outside) (request : CloseBackupRequest) (endPos : UInt64) :
    ℕ → UInt64 → FsProg Msg (List Name)
  | 0, _ => .err stillRunning
  | fuel + 1, pos =>
    if endPos < pos then .ret []
    else match P.walFileName pos request.timeline request.segmentSize with
      | .error _ => .err (.status .invalidArgument (.errorf "Invalid WAL position: (%d)" [sprintUInt64 pos]))
      | .ok name =>
        ((isWALFileExisting request.clusterName name).mapErr fun e =>
          .status .internal (.wrap "While checking existence of WAL file %q: %v" [name] e)).bind fun exist =>
        (missingWALFiles P request endPos fuel (pos + request.segmentSize)).bind fun rest =>
        .ret (if exist then rest else name :: rest)

def checkWALFiles (P : Outside) (fuel : ℕ) (request : CloseBackupRequest) : FsProg Msg (List Name) :=
  match P.lsnStartFromWALName request.startWal request.segmentSize with
  | .error _ => .err (.status .invalidArgument (.errorf "Invalid start_wal: %q" [request.startWal]))
  | .ok startLSN => match P.parseLSN startLSN with
    | .error _ => .err (.status .invalidArgument (.errorf "Invalid start_wal: %q (%q)" [request.startWal, startLSN]))
    | .ok startPos => match P.lsnStartFromWALName request.endWal request.segmentSize with
      | .error _ => .err (.status .invalidArgument (.errorf "Invalid LSN start from end_wal: %q" [request.endWal]))
      | .ok endLSN => match P.parseLSN endLSN with
        | .error _ => .err (.status .invalidArgument (.errorf "Invalid end_wal: %q (%q)" [request.endWal, startLSN]))
        | .ok endPos => missingWALFiles P request endPos fuel startPos

/-- `scheduleBackupRelay` on a server with a queue. A compression policy that cannot be read is
skipped. -/
def scheduleBackupRelay (P : Outside) (request : CloseBackupRequest) : FsProg Msg Unit :=
  let tier2Compression :=
    if request.tier2CompressionPolicy = [] then none else P.unmarshalCompression request.tier2CompressionPolicy
  .call (.emit (.backupTask request.clusterName request.sendToTier2 tier2Compression))
    fun (r : Except FsErr Unit) => match r with
      | .ok _ => .ret ()
      | .error e => .err (.wrap "while sending task to queue: %w" [] (.fs e))

def closeBackup (D : Deps) (P : Outside) (I : Implementation) (fuel : ℕ) (peer : Peer) (request : CloseBackupRequest) :
    FsProg Msg CloseBackupResult :=
  withClusterName D peer request.clusterName ((checkWALFiles P fuel request).bind fun missing =>
    if missing ≠ [] then .ret ⟨false, missing⟩
    else if I.queue then
      (scheduleBackupRelay P request).bind fun _ => .ret ⟨request.sendToTier2, []⟩
    else .ret ⟨false, []⟩)

/-! ## The service -/

/-- A call of the WAL service, with what it draws from the random source and the clock. -/
inductive Rpc where
  | put (rand : ℕ → ℕ) (batches : List Batch)
  | requestWALStart (rand : ℕ → ℕ) (req : WALStartRequest)
  | resetWALStream (rand : ℕ → ℕ) (now : ℤ) (req : WALStartRequest)
  | setRetentionPolicy (rand : ℕ → ℕ) (clusterName : Name) (policy : Option RetentionPolicy)
  | closeBackup (fuel : ℕ) (request : CloseBackupRequest)
  | get (clusterName walName : Name)
  | getMetadata (clusterName : Name)
  | getRetentionPolicy (clusterName : Name)

/-- What serves a call. -/
def Rpc.handler (D : Deps) (K : Codec) (P : Outside) (I : Implementation) (peer : Peer) : Rpc → FsProg Msg Unit
  | .put rand batches => Klio.put D K I rand peer batches
  | .requestWALStart rand req => (Klio.requestWALStart D K P I rand peer req).bind fun _ => .ret ()
  | .resetWALStream rand now req => (Klio.resetWALStream D K P I rand now peer req).bind fun _ => .ret ()
  | .setRetentionPolicy rand clusterName policy => Klio.setRetentionPolicy D K P rand peer clusterName policy
  | .closeBackup fuel request => (Klio.closeBackup D P I fuel peer request).bind fun _ => .ret ()
  | .get clusterName walName => getWAL D K peer clusterName walName
  | .getMetadata clusterName => (Klio.getMetadata D K P peer clusterName).bind fun _ => .ret ()
  | .getRetentionPolicy clusterName => (Klio.getRetentionPolicy D K P peer clusterName).bind fun _ => .ret ()

/-- What a call answers, besides the messages it sends. -/
inductive Response where
  | none
  | walStart (name : Name)
  | closeBackup (result : CloseBackupResult)
  | metadata (metadata : ClusterMetadata)
  | retentionPolicy (policy : RetentionPolicy)

/-- What serves a call, with its answer. -/
def Rpc.respond (D : Deps) (K : Codec) (P : Outside) (I : Implementation) (peer : Peer) : Rpc → FsProg Msg Response
  | .put rand batches => (Klio.put D K I rand peer batches).bind fun _ => .ret .none
  | .requestWALStart rand req => (Klio.requestWALStart D K P I rand peer req).bind fun name => .ret (.walStart name)
  | .resetWALStream rand now req => (Klio.resetWALStream D K P I rand now peer req).bind fun name => .ret (.walStart name)
  | .setRetentionPolicy rand clusterName policy =>
    (Klio.setRetentionPolicy D K P rand peer clusterName policy).bind fun _ => .ret .none
  | .closeBackup fuel request => (Klio.closeBackup D P I fuel peer request).bind fun result => .ret (.closeBackup result)
  | .get clusterName walName => (getWAL D K peer clusterName walName).bind fun _ => .ret .none
  | .getMetadata clusterName => (Klio.getMetadata D K P peer clusterName).bind fun m => .ret (.metadata m)
  | .getRetentionPolicy clusterName =>
    (Klio.getRetentionPolicy D K P peer clusterName).bind fun policy => .ret (.retentionPolicy policy)

/-- `Options` of the WAL server. -/
structure Options where
  readOnly : Bool
  queue : Bool

/-- `New` -/
def newImplementation (opts : Options) : Implementation := ⟨opts.readOnly, opts.queue⟩

/-- `Start`: the options it passes to `New`. There is a queue if there is a URL for it. -/
def start (queueURL : Name) : Implementation := newImplementation ⟨false, queueURL != []⟩

structure Tier2WALServer where
  queueURL : Name := []

def Tier2WALServer.serve (s : Tier2WALServer) : Implementation := start s.queueURL

/-- The tiers that are enabled. -/
structure ServerOpts where
  tier1 : Bool
  tier2 : Bool

/-- The tier 2 WAL server that `runServer` adds. -/
def tier2WALServer (opts : ServerOpts) : Option Tier2WALServer := if opts.tier2 then some {} else none

end Klio
