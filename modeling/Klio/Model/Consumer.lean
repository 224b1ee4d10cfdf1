import Klio.Model.Sweep

/-!
# The queue consumers

`consumer/wal.go` and `consumer/backup.go`, with the wrappers of `queue/wal.go`: copying a WAL file
to tier 2, and relaying the backups of a cluster there.

A delivery that fails is left to the queue, which delivers the task again, moves it to the dead
letters after the last attempt, and may get it back from an operator. All of it is more deliveries of
the same task, or a `discardWAL`.

* `walHandler`, `consumeWAL`: one delivery of a WAL task.
* `processBackup`: one delivery of a backup task; `migrateSnapshots` is Kopia's command.
-/

namespace Klio

open Lib

/-! ## WAL files -/

structure WALTask where
  clusterName : Name
  walName : Name
  deriving DecidableEq

def tier2BufferSize : ℤ := 4 * 1024 * 1024

/-- `ReadBlock` on a file that may fail to be read. -/
def Reader.readBlockIO (K : Codec) (fails : Bool) (r : Reader) : Except Err (List UInt8) × Reader :=
  if fails then (.error (.wrap "while reading WAL file block: %w" [] (.fs .io)), r) else r.readBlock K

/-- The loop of `walHandler`; `fails` tells which calls of `ReadBlock` meet an I/O error. Every block
takes eight bytes or more, so that `fuel` covers it. -/
def copyBlocks (K₁ K₂ : Codec) : (ℕ → Bool) → ℕ → Reader → DirectWriter → RepoProg (DirectWriter × Except Err Unit)
  | _, 0, _, writer => .ret (writer, .ok ())
  | fails, fuel + 1, reader, writer => match reader.readBlockIO K₁ (fails 0) with
    | (.error e, _) =>
      if e.isEOF then
        -- the end of the file comes without a block, and that is written too
        (onWAL .tier2 (writer.writeBlock K₂ [])).bind fun out => .ret (out.1, out.2.mapError
          (.wrap "error while writing WAL block: %v" []))
      else .ret (writer, .error (.wrap "error while reading WAL: %v" [] e))
    | (.ok block, reader) => (onWAL .tier2 (writer.writeBlock K₂ block)).bind fun
      | (writer, .error e) => .ret (writer, .error (.wrap "error while writing WAL block: %v" [] e))
      | (writer, .ok _) => copyBlocks K₁ K₂ (fun n => fails (n + 1)) fuel reader writer

/-- `walHandler` from the open reader on. The writer is closed whatever the loop has met. -/
def copyWAL (K₁ K₂ : Codec) (rand : ℕ → ℕ) (fails : ℕ → Bool) (task : WALTask) (reader : Reader) : RepoProg Unit :=
  ((onWAL .tier2 (newDirectWriterFor K₂ rand
      ⟨task.clusterName, task.walName, reader.getFileLength, tier2BufferSize⟩)).mapErr
    (.wrap "while creating a new WAL writer for Tier 2: %w" [])).bind fun writer =>
  (copyBlocks K₁ K₂ fails (reader.rest.length + 1) reader writer).bind fun copied =>
  (onWAL .tier2 copied.1.close).bind fun closed => match copied.2, closed.2 with
    | .error e, _ => .err e
    | .ok _, .error e => .err (.wrap "while closing Tier 2 WAL: %w" [] e)
    | .ok _, .ok _ => .ret ()

/-- `walHandler`. The tiers have their own keys. -/
def walHandler (K₁ K₂ : Codec) (rand : ℕ → ℕ) (fails : ℕ → Bool) (task : WALTask) : RepoProg Unit :=
  ((onWAL .tier1 (newReader K₁ task.clusterName task.walName)).mapErr
    (.wrap "while creating a new WAL reader: %w" [])).bind (copyWAL K₁ K₂ rand fails task)

/-- Send a message; a failure is logged. -/
def notify (m : Msg) : RepoProg Unit := .call (.wal .tier1 (.emit m)) fun _ => .ret ()

/-- One delivery of a WAL task by `ConsumeWALReceivedMessages`. -/
def consumeWAL (D : Deps) (K₁ K₂ : Codec) (rand : ℕ → ℕ) (fails : ℕ → Bool) (isRetried : Bool) (task : WALTask) :
    RepoProg Unit :=
  (walHandler K₁ K₂ rand fails task).bind fun _ =>
  (if isRetried then notify (.discardWAL task.clusterName task.walName) else .ret ()).bind fun _ =>
  (if isWALSegmentOrPartial D task.walName then notify (.latestUploadedWAL task.clusterName task.walName)
    else .ret ()).bind fun _ =>
  notify (.ackWAL task.clusterName task.walName)

/-- An operator's retry of a task from the dead letters, one round of `enqueueWALTasks`. -/
def retryWAL (task : WALTask) : RepoProg Unit := notify (.walTask task.clusterName task.walName)

/-- An operator's `DiscardFailedWALTasks` of one task. -/
def discardWAL (task : WALTask) : RepoProg Unit := notify (.discardWAL task.clusterName task.walName)

/-! ## Backups -/

structure BackupTask where
  clusterName : Name
  sendToTier2 : Bool
  tier2CompressionPolicy : Option Name

/-- **Outside code of the relay**: `kopia snapshot migrate` takes the snapshots in some order. -/
structure RelayDeps where
  order : List Manifest → List Manifest
  order_perm : ∀ l, (order l).Perm l

def listManifests (cluster : Name) : RepoProg (List Manifest) :=
  ((listSnapshots .tier1 []).mapErr (.wrap "while executing Kopia command: %w" [])).bind fun entries =>
    .ret (entries.filter fun m => m.source.host = cluster)

/-- Migrate one snapshot after the other. -/
def migrateEach : List Manifest → RepoProg Unit
  | [] => .ret ()
  | m :: ms => .call (.migrateSnapshot m) fun (r : Except Err Unit) => match r with
    | .ok _ => migrateEach ms
    | .error e => .err (.wrap "while running the kopia migration: %w" [] e)

/-- `MigrateSnapshots`: all the snapshots of the sources. -/
def migrateSnapshots (V : RelayDeps) (sources : List Source) : RepoProg Unit :=
  ((listSnapshots .tier1 []).mapErr (.wrap "while running the kopia migration: %w" [])).bind fun entries =>
    migrateEach (V.order (entries.filter fun m => m.source ∈ sources))

def verifyTier1 : RepoProg Unit :=
  .call (.verifySnapshots .tier1) fun (r : Except VerifyErr Unit) => match r with
    | .ok _ => .ret ()
    | .error .corrupt => .err (.wrap "tier1 verification detected corruption: %w" [] kopiaFailed)
    | .error .infrastructure => .err kopiaFailed

/-- `verifyTier2Backups` only fails on corruption. -/
def verifyTier2Backups : RepoProg Unit :=
  .call (.verifySnapshots .tier2) fun (r : Except VerifyErr Unit) => match r with
    | .error .corrupt => .err (.wrap "tier2 verification detected corruption: %w" [] kopiaFailed)
    | _ => .ret ()

/-- `SetKopiaCompressionPolicy` of a relay, if the task asks for it. -/
def setTier2Compression (task : BackupTask) (entries : List Manifest) : RepoProg Unit :=
  match task.tier2CompressionPolicy, entries with
  | some policy, entry :: _ =>
    .call (.setCompressionPolicy .tier2 entry.source.userName task.clusterName policy) fun (r : Except Err Unit) =>
      match r with
      | .ok _ => .ret ()
      | .error e => .err (.wrap "while setting the tier2 compression policy: %w" [] e)
  | _, _ => .ret ()

def relayTier2 (V : RelayDeps) (task : BackupTask) (entries : List Manifest) : RepoProg Unit :=
  (setTier2Compression task entries).bind fun _ =>
  (migrateSnapshots V (entries.map Manifest.source)).bind fun _ => verifyTier2Backups

def relayToTier2IfRequested (V : RelayDeps) (tier2Enabled : Bool) (task : BackupTask) (entries : List Manifest) :
    RepoProg Unit :=
  if task.sendToTier2 && !tier2Enabled then
    .err (.new "backup requested tier2 relay but the server has no tier2 configured")
  else if !task.sendToTier2 then .ret ()
  else (relayTier2 V task entries).bind fun _ => .call (.refreshServer .tier2) fun _ => .ret ()

def processBackup (V : RelayDeps) (tier2Enabled : Bool) (task : BackupTask) : RepoProg Unit :=
  (listManifests task.clusterName).bind fun entries =>
  if entries = [] then .ret ()
  else verifyTier1.bind fun _ => relayToTier2IfRequested V tier2Enabled task entries

end Klio
