import Klio.Model.Server

/-!
# Backup repositories

The Kopia repositories of the two tiers, next to their WAL repositories, and the client code on top
of them: `kopia/data.go`, `klioclient/data.go`, `klioclient/kopia/list.go` and `delete.go`.

Kopia is outside code. An operation stands for one of its commands, and `repoSem` says what is
assumed of them: a listing is complete, a deletion removes one snapshot, a migration copies one.

* `Manifest`, `BackupMetadata`: a snapshot, and what its `metadata.json` says.
* `RepoOp`: the commands, and the operations on the WAL repository of a tier.
* `Repos`, `Backups`, `repoSem`: the state of both tiers and what the operations do to it.
* `listBackups`, `deleteBackupSnapshots`: the client.
-/

namespace Klio

open Lib

/-! ## Snapshots -/

inductive Tier where
  | tier1
  | tier2
  deriving DecidableEq

/-- `Source`: where the content of a snapshot comes from. -/
structure Source where
  host : Name
  userName : Name
  path : Name
  deriving DecidableEq

/-- `Manifest` of a snapshot. The ID only names it in its repository, so that a copy keeps it here. -/
structure Manifest where
  id : Name
  source : Source
  startTime : ℤ
  tags : List (Name × Name)
  deriving DecidableEq

/-- `Manifest.Tag`: empty if there is none. -/
def Manifest.tag (m : Manifest) (name : Name) : Name := (m.tags.lookup ("tag:".toList ++ name)).getD []

def backupNameTagName : Name := "klio.io/tag".toList

def backupContentTagName : Name := "klio.io/content".toList

/-- The content tag of the snapshot that completes a backup. -/
def metadataContent : Name := "metadata".toList

/-- The backup a snapshot is a part of. -/
def Manifest.backupName (m : Manifest) : Name := m.tag backupNameTagName

def Manifest.IsMetadata (m : Manifest) : Prop := m.tag backupContentTagName = metadataContent

instance (m : Manifest) : Decidable m.IsMetadata := inferInstanceAs (Decidable (_ = _))

/-- `BackupMetadata`, as far as the server reads it. -/
structure BackupMetadata where
  name : Name
  startWAL : Name
  startedAt : ℤ
  deriving DecidableEq

/-! ## Operations -/

/-- What a verification finds: corrupt objects, or no answer. -/
inductive VerifyErr where
  | corrupt
  | infrastructure
  deriving DecidableEq

/-- The operations on the repositories of a server. -/
inductive RepoOp where
  | wal (tier : Tier) (o : FsOp Name UInt8 Msg)
  | listSnapshots (tier : Tier) (tags : List (Name × Name))
  | restoreMetadata (tier : Tier) (id : Name)
  | deleteSnapshot (tier : Tier) (id : Name)
  /-- One snapshot of `kopia snapshot migrate`, from tier 1 to tier 2. -/
  | migrateSnapshot (m : Manifest)
  | verifySnapshots (tier : Tier)
  | setCompressionPolicy (tier : Tier) (userName hostname policy : Name)
  | refreshServer (tier : Tier)

/-- What an operation answers. -/
def RepoOp.Res : RepoOp → Type
  | .wal _ o => o.Res
  | .listSnapshots _ _ => Except Err (List Manifest)
  | .restoreMetadata _ _ => Except Err BackupMetadata
  | .verifySnapshots _ => Except VerifyErr Unit
  | _ => Except Err Unit

/-- A program on the repositories. -/
abbrev RepoProg (α : Type) := Prog RepoOp RepoOp.Res Err α

def onWAL {α : Type} (tier : Tier) : FsProg Msg α → RepoProg α
  | .ret a => .ret a
  | .err e => .err e
  | .call o k => .call (.wal tier o) fun r => onWAL tier (k r)

/-- **The repositories.** `log` has what the users of each WAL repository have sent, `migrated`
remembers which snapshots a migration has dealt with. -/
structure Repos (ι : Type) where
  snapshots : Tier → List Manifest
  wal : Tier → Fs Name UInt8
  log : Tier → List (ι × Msg × Bool) := fun _ => []
  migrated : List Manifest := []

/-- What the snapshots hold: the `metadata.json` of a metadata snapshot, and where restoring it
fails. -/
structure Backups where
  metadata : Name → BackupMetadata
  unreadable : Tier → Name → Bool

/-- A fault of an operation on a WAL repository, or of a Kopia command; a deletion may be done all
the same, and a verification may find corrupt objects. -/
inductive Fault where
  | io (k : ℕ)
  | kopia (flag : Bool)
  deriving DecidableEq

/-- The fault an operation on a WAL repository meets. -/
def ioFault : Option Fault → Option ℕ
  | some (.io k) => some k
  | _ => none

def kopiaFault : Option Fault → Option Bool
  | some (.kopia flag) => some flag
  | _ => none

/-- The error of a Kopia command. -/
def kopiaFailed : Err := .new "exit status 1"

/-- A snapshot that has all the tags of a query. -/
def Manifest.matches (m : Manifest) (tags : List (Name × Name)) : Bool := tags.all fun t => m.tag t.1 == t.2

variable {ι : Type}

namespace Repos

def setSnapshots (s : Repos ι) (tier : Tier) (ms : List Manifest) : Repos ι :=
  { s with snapshots := Function.update s.snapshots tier ms }

def delete (s : Repos ι) (tier : Tier) (id : Name) : Repos ι :=
  s.setSnapshots tier ((s.snapshots tier).filter fun m => m.id ≠ id)

/-- Copy a snapshot to tier 2, unless it is there. -/
def migrate (s : Repos ι) (m : Manifest) : Repos ι :=
  { s.setSnapshots .tier2 (if m ∈ s.snapshots .tier2 then s.snapshots .tier2 else s.snapshots .tier2 ++ [m]) with
    migrated := s.migrated ++ [m] }

/-- **What an operation answers and does.** A deletion that fails may have removed the snapshot; a
migration needs it on tier 1. -/
def exec (B : Backups) (i : ι) : (o : RepoOp) → Option Fault → Repos ι → o.Res × Repos ι
  | .wal tier o, c, s =>
    ((Fs.exec o (ioFault c) (s.wal tier)).1,
      { s with
        wal := Function.update s.wal tier (Fs.exec o (ioFault c) (s.wal tier)).2
        log := Function.update s.log tier (logOp i (ioFault c) (s.log tier) o) })
  | .listSnapshots tier tags, c, s =>
    ((match kopiaFault c with
      | none => .ok ((s.snapshots tier).filter fun m => m.matches tags)
      | some _ => .error kopiaFailed : Except Err (List Manifest)), s)
  | .restoreMetadata tier id, c, s =>
    ((if (kopiaFault c).isSome ∨ B.unreadable tier id ∨ ∀ m ∈ s.snapshots tier, m.id ≠ id then .error kopiaFailed
      else .ok (B.metadata id) : Except Err BackupMetadata), s)
  | .deleteSnapshot tier id, c, s =>
    match kopiaFault c with
    | none =>
      if ∀ m ∈ s.snapshots tier, m.id ≠ id then ((.error kopiaFailed : Except Err Unit), s)
      else ((.ok () : Except Err Unit), s.delete tier id)
    | some done => ((.error kopiaFailed : Except Err Unit), if done then s.delete tier id else s)
  | .migrateSnapshot m, c, s =>
    if (kopiaFault c).isSome ∨ m ∉ s.snapshots .tier1 then ((.error kopiaFailed : Except Err Unit), s)
    else ((.ok () : Except Err Unit), s.migrate m)
  | .verifySnapshots _, c, s =>
    ((match kopiaFault c with
      | none => .ok ()
      | some corrupt => .error (if corrupt then .corrupt else .infrastructure) : Except VerifyErr Unit), s)
  | .setCompressionPolicy _ _ _ _, c, s =>
    ((if (kopiaFault c).isSome then .error kopiaFailed else .ok () : Except Err Unit), s)
  | .refreshServer _, c, s =>
    ((if (kopiaFault c).isSome then .error kopiaFailed else .ok () : Except Err Unit), s)

end Repos

/-- **The semantics of interleaved processes on the repositories.** A crash loses what the WAL
repositories have not synced. -/
def repoSem (ι : Type) (B : Backups) : Sem ι RepoOp RepoOp.Res (Repos ι) (Option Fault) (Tier → ℕ → ℕ) where
  exec := Repos.exec B
  crash keep s := { s with wal := fun tier => (s.wal tier).crash (keep tier) }

theorem exec_listSnapshots {ι : Type} {B : Backups} (i : ι) (tier : Tier) (tags : List (Name × Name)) (c : Option Fault)
    (s : Repos ι) : (repoSem ι B).exec i (.listSnapshots tier tags) c s =
      ((match kopiaFault c with
        | none => .ok ((s.snapshots tier).filter fun m => m.matches tags)
        | some _ => .error kopiaFailed : Except Err (List Manifest)), s) := rfl

/-! ## Listing -/

def listSnapshots (tier : Tier) (tags : List (Name × Name)) : RepoProg (List Manifest) :=
  .call (.listSnapshots tier tags) fun (r : Except Err (List Manifest)) => Prog.orErr id r

/-- The loop of `ListBackups`. An entry whose metadata cannot be restored is skipped. -/
def restoreEntries (tier : Tier) (hostname : Name) : List Manifest → RepoProg (List BackupMetadata)
  | [] => .ret []
  | entry :: entries =>
    if hostname ≠ [] ∧ entry.source.host ≠ hostname then restoreEntries tier hostname entries
    else .call (.restoreMetadata tier entry.id) fun (r : Except Err BackupMetadata) => match r with
      | .error _ => restoreEntries tier hostname entries
      | .ok metadata => (restoreEntries tier hostname entries).bind fun result => .ret (metadata :: result)

def listBackups (tier : Tier) (hostname : Name) : RepoProg (List BackupMetadata) :=
  ((listSnapshots tier [(backupContentTagName, metadataContent)]).mapErr
    (.wrap "while executing Kopia command: %w" [])).bind (restoreEntries tier hostname)

/-! ## Deletion -/

/-- `deleteSnapshots`, with the errors it joins. -/
def deleteSnapshots (tier : Tier) : List Manifest → RepoProg (List Err)
  | [] => .ret []
  | entry :: entries =>
    .call (.deleteSnapshot tier entry.id) fun (r : Except Err Unit) =>
      (deleteSnapshots tier entries).bind fun errs => .ret (match r with
        | .ok _ => errs
        | .error e => e :: errs)

/-- `deleteBackupSnapshots`, with at most so many attempts. -/
def deleteBackupSnapshots (tier : Tier) (hostname name : Name) : ℕ → RepoProg Unit
  | 0 => .err (.new "timed out waiting for the condition")
  | steps + 1 =>
    ((listSnapshots tier [(backupNameTagName, name)]).mapErr (.wrap "while listing snapshots: %w" [])).bind
      fun entries =>
    let entries := entries.filter fun e => e.source.host = hostname
    if entries = [] then .err (.wrap "%w: %s" [name] (.new "backup not found"))
    else (deleteSnapshots tier entries).bind fun errs =>
      if errs = [] then .ret () else deleteBackupSnapshots tier hostname name steps

end Klio
