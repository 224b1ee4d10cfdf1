import Klio.Model.Kopia

/-!
# Taking and restoring a backup

The client's side of base backups: `klioclient/backup.go` and `restore.go`, on top of
`klioclient/kopia/backup.go`, `restore.go` and `list.go`.

The parts of a backup are snapshots of their own. Nothing ties them together but their tags: a
restore looks for each part with the tags of that part, and takes the first snapshot it finds.

* `BackupRun.prog`: one run of `klio backup run`, as far as the repository sees it.
* `restore`: `RestoreExecutor.Restore`.
* `KopiaRepo`, `kopiaSem`: the snapshots in the order of their creation.
* `MultiConnection`: one catalog of both tiers (`kopia/multiconnect.go`).
-/

namespace Klio

open Lib

/-! ## Data -/

structure TablespaceLayout where
  name : Name
  oid : Name
  path : Name
  deriving DecidableEq

/-- `BackupMetadata` with what the client stores besides. JSON gives back what it was given. -/
structure ClientMetadata extends BackupMetadata where
  clusterName : Name
  startLSN : UInt64
  endLSN : UInt64
  endWAL : Name
  timeline : ℤ
  segmentSize : UInt64
  backupLabel : Name
  tablespaceMap : Name
  pgData : Name
  tablespaces : List TablespaceLayout
  stoppedAt : ℤ
  deriving DecidableEq

/-- **Outside code of the client**: the ID Kopia gives to a snapshot is not in use, `path.Join` and
the names of WAL files. -/
structure ClientDeps where
  newID : List Name → Name
  pathJoin : Name → Name → Name
  walFileName : UInt64 → ℤ → UInt64 → Except Err Name
  newID_fresh : ∀ ids, newID ids ∉ ids

/-- `path.Base` -/
def pathBase (path : Name) : Name :=
  if path = [] then ".".toList
  else
    let base := ((path.reverse.dropWhile (· == '/')).takeWhile (· != '/')).reverse
    if base = [] then "/".toList else base

def tablespaceNameTagName : Name := "klio.io/tablespaceName".toList

/-- What is stored as a snapshot. `content` is the metadata, for a snapshot of that. -/
structure Upload where
  source : Source
  tags : List (Name × Name)
  content : Option ClientMetadata := none
  deriving DecidableEq

/-! ## Operations -/

/-- What the client asks of Kopia and of its own file system. -/
inductive KopiaOp where
  | writeFile (file content : Name)
  | removeFile (file : Name)
  | ensureDirectoryExists (path : Name)
  /-- `kopia snapshot create` -/
  | snapshot (upload : Upload)
  | listSnapshots (tags : List (Name × Name))
  | restoreSingleFile (id fileName : Name)
  | restoreSnapshot (id destination : Name)

/-- What an operation answers. -/
def KopiaOp.Res : KopiaOp → Type
  | .listSnapshots _ => Except Err (List Manifest)
  | .restoreSingleFile _ _ => Except Err ClientMetadata
  | _ => Except Err Unit

/-- A program of the client. -/
abbrev KopiaProg (α : Type) := Prog KopiaOp KopiaOp.Res Err α

/-- A snapshot, with the run that has stored it. -/
structure Snapshot where
  id : Name
  startTime : ℤ
  run : ℕ
  upload : Upload
  deriving DecidableEq

/-- Its manifest; Kopia marks the tags of its users. -/
def Snapshot.manifest (x : Snapshot) : Manifest :=
  ⟨x.id, x.upload.source, x.startTime, x.upload.tags.map fun t => ("tag:".toList ++ t.1, t.2)⟩

/-- **A Kopia repository**: its snapshots in the order of creation, and what was restored where. -/
structure KopiaRepo where
  stored : List Snapshot := []
  restored : List (Snapshot × Name) := []

namespace KopiaRepo

variable (D : ClientDeps)

/-- Store a snapshot. -/
def create (i : ℕ) (s : KopiaRepo) (u : Upload) : KopiaRepo :=
  { s with stored := s.stored ++ [⟨D.newID (s.stored.map Snapshot.id), s.stored.length, i, u⟩] }

/-- **What an operation answers and does.** A fault may come after a snapshot was stored or restored. -/
def exec (i : ℕ) : (o : KopiaOp) → Option Bool → KopiaRepo → o.Res × KopiaRepo
  | .writeFile _ _, c, s => ((if c.isSome then .error (.fs .io) else .ok () : Except Err Unit), s)
  | .removeFile _, c, s => ((if c.isSome then .error (.fs .io) else .ok () : Except Err Unit), s)
  | .ensureDirectoryExists _, c, s => ((if c.isSome then .error (.fs .io) else .ok () : Except Err Unit), s)
  | .snapshot u, none, s => ((.ok () : Except Err Unit), s.create D i u)
  | .snapshot u, some done, s => ((.error kopiaFailed : Except Err Unit), if done then s.create D i u else s)
  | .listSnapshots tags, c, s =>
    ((if c.isSome then .error kopiaFailed
      else .ok ((s.stored.map Snapshot.manifest).filter fun m => m.matches tags) : Except Err (List Manifest)), s)
  | .restoreSingleFile id _, c, s =>
    ((match (s.stored.find? fun x => x.id = id).bind fun x => x.upload.content with
      | some metadata => if c.isSome then .error kopiaFailed else .ok metadata
      | none => .error kopiaFailed : Except Err ClientMetadata), s)
  | .restoreSnapshot id destination, c, s =>
    match s.stored.find? fun x => x.id = id with
    | none => ((.error kopiaFailed : Except Err Unit), s)
    | some x => match c with
      | none => ((.ok () : Except Err Unit), { s with restored := s.restored ++ [(x, destination)] })
      | some done => ((.error kopiaFailed : Except Err Unit),
          if done then { s with restored := s.restored ++ [(x, destination)] } else s)

end KopiaRepo

/-- The semantics of runs on a repository. -/
def kopiaSem (D : ClientDeps) : Sem ℕ KopiaOp KopiaOp.Res KopiaRepo (Option Bool) Unit where
  exec := KopiaRepo.exec D
  crash _ s := s

/-- An operation without a result, with how its error is reported. -/
def KopiaOp.run (o : KopiaOp) (h : o.Res = Except Err Unit) (f : Err → Err) : KopiaProg Unit :=
  .call o fun r => Prog.orErr f (cast h r)

/-! ## A backup -/

/-- `Connection`, as the client certificate names it; `extractUserNameAndHostName` refuses an empty
name. -/
structure Connection where
  hostName : Name
  userName : Name
  hostName_ne : hostName ≠ []

def partTags (backupName content : Name) : List (Name × Name) :=
  [(backupNameTagName, backupName), (backupContentTagName, content)]

def tablespaceTags (backupName tablespaceName : Name) : List (Name × Name) :=
  [(backupContentTagName, "tablespace".toList), (tablespaceNameTagName, tablespaceName), (backupNameTagName, backupName)]

def snapshotDirectory (conn : Connection) (directory : Name) (tags : List (Name × Name)) : KopiaProg Unit :=
  KopiaOp.run (.snapshot ⟨⟨conn.hostName, conn.userName, directory⟩, tags, none⟩) rfl
    (.wrap "while executing Kopia command: %w" [])

/-- `UploadTablespace`: the tag has the base name. -/
def uploadTablespace (conn : Connection) (backupName : Name) (tbl : TablespaceLayout) : KopiaProg Unit :=
  (snapshotDirectory conn tbl.path (tablespaceTags backupName (pathBase tbl.name))).mapErr
    (.wrap "unable to snapshot directory: %w" [])

def kopiaIgnoreFileName : Name := ".kopiaignore".toList

def kopiaIgnoreContent : Name :=
  ("\n/pg_log/*\n/log/*\n\n/pg_xlog/*\n/pg_wal\n\n/global/pg_control\n\npgsql_tmp*\npostgresql.auto.conf.tmp\n" ++
    "current_logfiles.tmp\npg_internal.init\npostmaster.pid\npostmaster.opts\nrecovery.conf\nstandby.signal\n" ++
    "pg_dynshmem/*\npg_notify/*\npg_replslot/*\npg_serial/*\npg_stat_tmp/*\npg_snapshots/*\npg_subtrans/*\n").toList

/-- `UploadPgData`. A `.kopiaignore` file that cannot be removed is left behind. -/
def uploadPgData (D : ClientDeps) (conn : Connection) (backupName pgData : Name) : KopiaProg Unit :=
  (KopiaOp.run (.writeFile (D.pathJoin pgData kopiaIgnoreFileName) kopiaIgnoreContent) rfl
    (.wrap "while creating .kopiaignore file: %w" [])).bind fun _ =>
  (snapshotDirectory conn pgData (partTags backupName "pgdata".toList)).bind fun _ =>
  .call (.removeFile (D.pathJoin pgData kopiaIgnoreFileName)) fun _ => .ret ()

def uploadControlFile (conn : Connection) (backupName controlDataFileName : Name) : KopiaProg Unit :=
  (snapshotDirectory conn controlDataFileName (partTags backupName "controldata".toList)).mapErr
    (.wrap "while snapshotting control data file: %w" [])

/-- `UploadBackupMetadata`: the metadata is stored under a directory that does not exist. -/
def uploadBackupMetadata (conn : Connection) (backupName : Name) (data : ClientMetadata) : KopiaProg Unit :=
  (KopiaOp.run (.snapshot ⟨⟨conn.hostName, conn.userName, trimSuffix data.pgData "/".toList ++ "_meta".toList⟩,
      partTags backupName metadataContent, some data⟩) rfl
    (.wrap "while executing Kopia command: %w" [])).mapErr (.wrap "error file snapshotting metadata: %w" [])

def controlDataPath : Name := "global/pg_control".toList

/-- The rows of `pg_tablespace`, or where reading them fails. -/
inductive TablespaceRows where
  | query (e : Err)
  | scan (e : Err)
  | rows (e : Err)
  | ok (l : List TablespaceLayout)

/-- What PostgreSQL answers to a run. The timeline and the segment size may be missing. -/
structure Postgres where
  dataDirectory : Except Err Name
  tablespaces : TablespaceRows
  backupStart : Except Err UInt64
  timeline : Option ℤ
  segmentSize : Option UInt64
  /-- The end position, the backup label and the tablespace map. -/
  backupStop : Except Err (UInt64 × Name × Name)

/-- A run of `klio backup run`: the name it was given, if any, and the clock. -/
structure BackupRun where
  conn : Connection
  optsName : Name
  timestamp : Name
  startedAt : ℤ
  stoppedAt : ℤ
  pg : Postgres

structure BackupExecutor where
  name : Name
  clusterName : Name
  pgData : Name
  startLSN : UInt64
  tablespaces : List TablespaceLayout
  startedAt : ℤ

namespace BackupRun

def name (run : BackupRun) : Name := if run.optsName ≠ [] then run.optsName else run.timestamp

/-- `Start`. The tablespaces of PostgreSQL itself have no path. -/
def start (run : BackupRun) : Except Err BackupExecutor :=
  match run.pg.dataDirectory with
  | .error e => .error (.wrap "while reading pgdata: %w" [] e)
  | .ok pgData => match run.pg.tablespaces with
    | .query e => .error (.wrap "while reading list of tablespaces: %w" [] e)
    | .scan e => .error (.wrap "while reading list of tablespaces (scan): %w" [] e)
    | .rows e => .error (.wrap "while reading tablespaces: %w" [] e)
    | .ok l => match run.pg.backupStart with
      | .error e => .error (.wrap "while running pg_backup_start: %w" [] e)
      | .ok startLSN => .ok ⟨run.name, run.conn.hostName, pgData, startLSN, l.filter (fun tbl => tbl.path ≠ []), run.startedAt⟩

end BackupRun

namespace BackupExecutor

/-- The loop of `Upload`. -/
def uploadTablespaces (conn : Connection) (backupName : Name) : List TablespaceLayout → KopiaProg Unit
  | [] => .ret ()
  | tbl :: tbls => (uploadTablespace conn backupName tbl).bind fun _ => uploadTablespaces conn backupName tbls

def upload (D : ClientDeps) (conn : Connection) (b : BackupExecutor) : KopiaProg Unit :=
  (uploadTablespaces conn b.name b.tablespaces).bind fun _ =>
  (uploadPgData D conn b.name b.pgData).bind fun _ =>
  uploadControlFile conn b.name (D.pathJoin b.pgData controlDataPath)

def walFileAt (D : ClientDeps) (pg : Postgres) (lsn : UInt64) : Name :=
  let tli := pg.timeline.getD 0
  let segmentSize := pg.segmentSize.getD 0
  if 0 < tli ∧ 0 < segmentSize then (match D.walFileName lsn tli segmentSize with
    | .ok name => name
    | .error _ => [])
  else []

/-- The metadata that `Close` builds. -/
def metadata (D : ClientDeps) (run : BackupRun) (b : BackupExecutor) (endLSN : UInt64) (labelFile spcmapFile : Name) :
    ClientMetadata where
  name := b.name
  clusterName := b.clusterName
  startedAt := b.startedAt
  stoppedAt := run.stoppedAt
  startLSN := b.startLSN
  endLSN := endLSN
  backupLabel := labelFile
  tablespaceMap := spcmapFile
  tablespaces := b.tablespaces
  timeline := run.pg.timeline.getD 0
  segmentSize := run.pg.segmentSize.getD 0
  pgData := b.pgData
  startWAL := walFileAt D run.pg b.startLSN
  endWAL := walFileAt D run.pg endLSN

def close (D : ClientDeps) (run : BackupRun) (b : BackupExecutor) : KopiaProg ClientMetadata :=
  match run.pg.backupStop with
  | .error e => .err (.wrap "while running pg_backup_stop: %w" [] e)
  | .ok (endLSN, labelFile, spcmapFile) =>
    ((uploadBackupMetadata run.conn b.name (b.metadata D run endLSN labelFile spcmapFile)).mapErr
      (.wrap "while uploading backup metadata: %w" [])).bind fun _ => .ret (b.metadata D run endLSN labelFile spcmapFile)

end BackupExecutor

/-- **A run**: `Start`, `Upload` and `Close`. -/
def BackupRun.prog (D : ClientDeps) (run : BackupRun) : KopiaProg ClientMetadata :=
  match run.start with
  | .error e => .err (.wrap "while starting the backup: %w" [] e)
  | .ok b => ((b.upload D run.conn).mapErr (.wrap "while uploading data: %w" [])).bind fun _ =>
    (b.close D run).mapErr (.wrap "while closing the backup: %w" [])

/-! ## A restore -/

/-- `ListSnapshots` of the client. -/
def listTagged (tags : List (Name × Name)) : KopiaProg (List Manifest) :=
  .call (.listSnapshots tags) fun (r : Except Err (List Manifest)) => Prog.orErr (.wrap "while executing Kopia command: %w" []) r

def restoreMetadata (snapshotID : Name) : KopiaProg ClientMetadata :=
  .call (.restoreSingleFile snapshotID "metadata.json".toList) fun (r : Except Err ClientMetadata) =>
    Prog.orErr (.wrap "restoring backup metadata: %w" []) r

/-- `GetMetadata` -/
def getMetadataOf (hostname name : Name) : KopiaProg ClientMetadata :=
  (listTagged (partTags name metadataContent)).bind fun entries =>
  match entries.find? fun entry => entry.source.host = hostname with
  | some entry => restoreMetadata entry.id
  | none => .err (.errorf "backup %q for host %q not found" [name, hostname])

def getSnapshotID (conn : Connection) (tags : List (Name × Name)) : KopiaProg Name :=
  (listTagged tags).bind fun entries =>
  match entries.find? fun entry => conn.hostName ≠ [] ∧ entry.source.host = conn.hostName with
  | some entry => .ret entry.id
  | none => .err (.errorf "snapshot not found for tags %q and hostname %q" (tags.flatMap (fun t => [t.1, t.2]) ++ [conn.hostName]))

def restoreTagged (conn : Connection) (tags : List (Name × Name)) (destination : Name) : KopiaProg Unit :=
  (getSnapshotID conn tags).bind fun source =>
  KopiaOp.run (.restoreSnapshot source destination) rfl (.wrap "while restoring Kopia snapshot: %w" [])

/-- `RestoreTablespace`: the tag has the name itself. -/
def restoreTablespace (conn : Connection) (metadata : ClientMetadata) (tbl : TablespaceLayout) (destinationDirectory : Name) :
    KopiaProg Unit :=
  restoreTagged conn (tablespaceTags metadata.name tbl.name) destinationDirectory

def restorePgData (conn : Connection) (metadata : ClientMetadata) (destinationDirectory : Name) : KopiaProg Unit :=
  restoreTagged conn (partTags metadata.name "pgdata".toList) destinationDirectory

def restoreControlData (conn : Connection) (metadata : ClientMetadata) (destinationPath : Name) : KopiaProg Unit :=
  restoreTagged conn (partTags metadata.name "controldata".toList) destinationPath

structure RestoreConfiguration where
  name : Name
  tablespacesDirectory : List (Name × Name) := []

def RestoreConfiguration.destination (conf : RestoreConfiguration) (tbl : TablespaceLayout) : Name :=
  (conf.tablespacesDirectory.lookup tbl.name).getD tbl.path

/-- The loop over the tablespaces. -/
def restoreTablespaces (conn : Connection) (conf : RestoreConfiguration) (metadata : ClientMetadata) :
    List TablespaceLayout → KopiaProg Unit
  | [] => .ret ()
  | tbl :: tbls =>
    (((restoreTablespace conn metadata tbl (conf.destination tbl)).mapErr
        (.wrap "while restoring tablespace %s to %s: %w" [tbl.name, conf.destination tbl])).mapErr
      (.wrap "while restoring tablespace %s: %w" [tbl.name])).bind fun _ => restoreTablespaces conn conf metadata tbls

def backupLabelFileName : Name := "backup_label".toList

def restore (D : ClientDeps) (conn : Connection) (conf : RestoreConfiguration) (hostname destinationPath : Name) :
    KopiaProg Unit :=
  ((getMetadataOf hostname conf.name).mapErr (.wrap "while getting metadata for backup %s: %w" [conf.name])).bind fun metadata =>
  (restoreTablespaces conn conf metadata metadata.tablespaces).bind fun _ =>
  ((restorePgData conn metadata destinationPath).mapErr (.wrap "while restoring pgdata to %s: %w" [destinationPath])).bind fun _ =>
  let controlDataFileName := D.pathJoin destinationPath controlDataPath
  ((restoreControlData conn metadata controlDataFileName).mapErr
    (.wrap "while restoring control data file to %s: %w" [controlDataFileName])).bind fun _ =>
  let backupLabel := D.pathJoin destinationPath backupLabelFileName
  (KopiaOp.run (.writeFile backupLabel metadata.backupLabel) rfl
    (.wrap "while writing backup label %s file: %w" [backupLabel])).bind fun _ =>
  KopiaOp.run (.ensureDirectoryExists (D.pathJoin destinationPath "pg_wal".toList)) rfl
    (.wrap "while creating pg_wal directory: %w" [])

/-! ## The catalog of both tiers -/

/-- `BackupMetadata`; `rest` stands for the other fields. -/
structure CatalogEntry (M : Type) where
  name : String
  annotations : String → Option String
  rest : M

/-- The connections to the tiers that are configured. -/
structure MultiConnection (C : Type) where
  tier1 : Option C
  tier2 : Option C

inductive CatalogErr (E : Type) where
  /-- "while listing backups from tier1: %w" -/
  | tier1 (e : E)
  /-- "while listing backups from tier2: %w" -/
  | tier2 (e : E)

def tier1AnnotationName : String := "klio.io/tier1"

def tier2AnnotationName : String := "klio.io/tier2"

def presentAnnotationValue : String := "present"

variable {M C E : Type}

abbrev names (l : List (CatalogEntry M)) : List String := l.map CatalogEntry.name

def CatalogEntry.setAnnotation (m : CatalogEntry M) (n v : String) : CatalogEntry M :=
  { m with annotations := Function.update m.annotations n (some v) }

def markTier1 (m : CatalogEntry M) : CatalogEntry M := m.setAnnotation tier1AnnotationName presentAnnotationValue

def markTier2 (m : CatalogEntry M) : CatalogEntry M := m.setAnnotation tier2AnnotationName presentAnnotationValue

/-- What a tier lists; nothing if it is not configured. -/
def tierList (list : C → Except E (List (CatalogEntry M))) : Option C → Except E (List (CatalogEntry M))
  | none => .ok []
  | some conn => list conn

/-- The two loops of `ListBackups`. -/
def mergeLists (tier1List tier2List : List (CatalogEntry M)) : List (CatalogEntry M) :=
  (tier1List.map fun m => if m.name ∈ names tier2List then markTier2 (markTier1 m) else markTier1 m) ++
    (tier2List.filter fun m => m.name ∉ names tier1List).map markTier2

namespace MultiConnection

def listBackups (s : MultiConnection C) (list : C → Except E (List (CatalogEntry M))) :
    Except (CatalogErr E) (List (CatalogEntry M)) :=
  match tierList list s.tier1 with
  | .error e => .error (.tier1 e)
  | .ok tier1List => match tierList list s.tier2 with
    | .error e => .error (.tier2 e)
    | .ok tier2List => .ok (mergeLists tier1List tier2List)

def getClientFromMetadata (s : MultiConnection C) (m : CatalogEntry M) : Option C :=
  if m.annotations tier1AnnotationName = some presentAnnotationValue then s.tier1
  else if m.annotations tier2AnnotationName = some presentAnnotationValue then s.tier2
  else none

end MultiConnection

end Klio
