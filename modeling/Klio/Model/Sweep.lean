import Klio.Model.Kopia

/-!
# The retention sweeper

`retention/sweep.go`, `retention/orphans.go`, `retention/walretention.go` and `policy/policy.go`:
the periodic deletion of backups that are out of retention, of backups that were never completed, and
of the WAL files that no backup needs.

* `LatestPolicy`, `deletionCandidates`: which backups to delete.
* `orphanBackupNames`: which backups were abandoned.
* `applyWALRetention`, `sweepCluster`, `sweepOrphans`, `sweepTier`, `Sweeper.sweep`.
-/

namespace Klio

open Lib

/-- `hostBackupName`: one backup of one cluster. -/
structure HostBackupName where
  host : Name
  name : Name
  deriving DecidableEq

/-- **Outside code of the sweeper**: `sort.Slice` by ascending start, in some order where the starts
are equal, and how many attempts the backoff of a deletion allows. -/
structure SweepDeps where
  sortByAscendingTime : List BackupMetadata → List BackupMetadata
  deleteAttempts : ℕ
  sort_perm : ∀ l, (sortByAscendingTime l).Perm l
  sort_sorted : ∀ l, (sortByAscendingTime l).Pairwise fun a b => a.startedAt ≤ b.startedAt

/-! ## Policies -/

structure LatestPolicy where
  count : ℕ

/-- `LatestPolicy.Evaluate`: the backups to keep. -/
def LatestPolicy.evaluate (W : SweepDeps) (p : LatestPolicy) (backupList : List BackupMetadata) : List BackupMetadata :=
  if p.count = 0 then backupList
  else
    let backupList := W.sortByAscendingTime backupList
    if backupList.length > p.count then backupList.drop (backupList.length - p.count) else backupList

def policyFromProto (p : TierRetentionPolicy) : Except Err LatestPolicy :=
  if p.latest < 0 then
    .error (.wrap "%w: got %d" [(toString p.latest).toList]
      (.new "invalid retention policy: latest must be greater than or equal to 0"))
  else .ok ⟨p.latest.toNat⟩

def diffByName (all keep : List BackupMetadata) : List BackupMetadata :=
  all.filter fun b => b.name ∉ keep.map BackupMetadata.name

/-! ## One cluster -/

structure TierConfig where
  name : Name
  tier : Tier
  selectPolicy : RetentionPolicy → Option TierRetentionPolicy
  walRepository : Bool
  syncGuardClient : Option Tier := none

def protectUnsyncedToTier2 (clusterName : Name) (candidates : List BackupMetadata) (tier2Client : Tier) :
    RepoProg (List BackupMetadata) :=
  ((listBackups tier2Client clusterName).mapErr (.wrap "while listing tier2 backups: %w" [])).bind fun tier2Backups =>
    .ret (candidates.filter fun b => b.name ∈ tier2Backups.map BackupMetadata.name)

def deletionCandidates (W : SweepDeps) (clusterName : Name) (tc : TierConfig) (retentionPolicy : RetentionPolicy)
    (evaluator : LatestPolicy) (backups : List BackupMetadata) : RepoProg (List BackupMetadata) :=
  let toDelete := diffByName backups (evaluator.evaluate W backups)
  match tc.syncGuardClient, retentionPolicy.tier2Policy with
  | some client, some _ =>
    (protectUnsyncedToTier2 clusterName toDelete client).mapErr (.wrap "while checking tier2 sync status: %w" [])
  | _, _ => .ret toDelete

/-! ## The candidates, on slices

A slice is a part of an array that other slices may share, and `Evaluate` sorts its argument in place. -/

/-- A part of one of the arrays in memory. -/
structure Slice where
  array : ℕ
  offset : ℕ
  length : ℕ

abbrev Arrays := List (List BackupMetadata)

def Slice.entries (m : Arrays) (s : Slice) : List BackupMetadata := ((m.getD s.array []).drop s.offset).take s.length

/-- `append(klioclient.BackupList{}, backups...)` -/
def Slice.copy (m : Arrays) (s : Slice) : Arrays × Slice :=
  (m ++ [s.entries m], ⟨m.length, 0, (s.entries m).length⟩)

/-- `SortByAscendingTime` moves the entries inside their array. -/
def Slice.sortByAscendingTime (W : SweepDeps) (m : Arrays) (s : Slice) : Arrays :=
  m.modify s.array fun a => a.take s.offset ++ W.sortByAscendingTime (s.entries m) ++ a.drop (s.offset + s.length)

/-- `LatestPolicy.Evaluate` -/
def LatestPolicy.evaluateIn (W : SweepDeps) (p : LatestPolicy) (m : Arrays) (backupList : Slice) : Arrays × Slice :=
  if p.count = 0 then (m, backupList)
  else (backupList.sortByAscendingTime W m,
    if backupList.length > p.count then
      ⟨backupList.array, backupList.offset + (backupList.length - p.count), p.count⟩
    else backupList)

/-- `deletionCandidates`, with the arrays in memory. -/
def deletionCandidatesIn (W : SweepDeps) (clusterName : Name) (tc : TierConfig) (retentionPolicy : RetentionPolicy)
    (evaluator : LatestPolicy) (m : Arrays) (backups : Slice) : RepoProg (Arrays × List BackupMetadata) :=
  let copied := backups.copy m
  let keep := evaluator.evaluateIn W copied.1 copied.2
  let toDelete := diffByName (backups.entries keep.1) (keep.2.entries keep.1)
  match tc.syncGuardClient, retentionPolicy.tier2Policy with
  | some client, some _ =>
    ((protectUnsyncedToTier2 clusterName toDelete client).mapErr (.wrap "while checking tier2 sync status: %w" [])).bind
      fun guarded => .ret (keep.1, guarded)
  | _, _ => .ret (keep.1, toDelete)

/-! ## The sweep -/

/-- `deleteBackups`: how many were deleted, and the errors of the others. -/
def deleteBackups (W : SweepDeps) (tier : Tier) : List HostBackupName → RepoProg (ℕ × List Err)
  | [] => .ret (0, [])
  | t :: targets =>
    (deleteBackupSnapshots tier t.host t.name W.deleteAttempts).attempt.bind fun out =>
    (deleteBackups W tier targets).bind fun rest => .ret (match out with
      | .ok _ => (rest.1 + 1, rest.2)
      | .error e => (rest.1, .wrap "while deleting backup %q of cluster %q: %w" [t.name, t.host] e :: rest.2))

/-- `sweepCluster`. The policy is read from the WAL repository of tier 1, for both tiers. -/
def sweepCluster (K : Codec) (P : Outside) (W : SweepDeps) (clusterName : Name) (tc : TierConfig) :
    RepoProg (ℕ × List Err) :=
  ((onWAL .tier1 (getClusterRetentionPolicy K P clusterName)).mapErr
    (.wrap "while reading retention policy: %w" [])).bind fun retentionPolicy =>
  match tc.selectPolicy retentionPolicy with
  | none => .ret (0, [])
  | some tierPolicy => match policyFromProto tierPolicy with
    | .error e => .err e
    | .ok evaluator =>
      ((listBackups tc.tier clusterName).mapErr (.wrap "while listing backups: %w" [])).bind fun backups =>
      if backups = [] then .ret (0, [])
      else (deletionCandidates W clusterName tc retentionPolicy evaluator backups).bind fun toDelete =>
        deleteBackups W tc.tier (toDelete.map fun b => ⟨clusterName, b.name⟩)

/-- One round of `findOldestWAL`. -/
def olderWAL (oldest : Name) (b : BackupMetadata) : Name :=
  if b.startWAL = [] then oldest
  else if oldest = [] ∨ b.startWAL < oldest then b.startWAL else oldest

def findOldestWAL (backups : List BackupMetadata) : Name := backups.foldl olderWAL []

/-- `applyWALRetention` on the backups it has listed. -/
def retainWALOf (D : Deps) (clusterName : Name) (tier : Tier) (backups : List BackupMetadata) : RepoProg Unit :=
  if backups = [] then .ret ()
  else if findOldestWAL backups = [] then .ret ()
  else match validateWalFileName (findOldestWAL backups) with
    | .error e =>
      .err (.wrap "computed first required WAL %q is invalid: %w" [findOldestWAL backups] (.name e))
    | .ok _ => onWAL tier (setFirstRequiredOnCluster D clusterName (findOldestWAL backups))

def applyWALRetention (D : Deps) (clusterName : Name) (tc : TierConfig) : RepoProg Unit :=
  if !tc.walRepository then .ret ()
  else ((listBackups tc.tier clusterName).mapErr (.wrap "while listing backups: %w" [])).bind
    (retainWALOf D clusterName tc.tier)

/-! ## Orphans -/

structure BackupGroup where
  hasMetadata : Bool
  startTime : ℤ
  deriving DecidableEq

def updateGroup (entry : Manifest) (g : Option BackupGroup) : BackupGroup :=
  let g := g.getD ⟨false, entry.startTime⟩
  { hasMetadata := g.hasMetadata || decide entry.IsMetadata
    startTime := if g.startTime = 0 ∨ entry.startTime < g.startTime then entry.startTime else g.startTime }

/-- Add an entry to the groups, a map of which nothing depends on the order. -/
def addToGroups (key : HostBackupName) (entry : Manifest) :
    List (HostBackupName × BackupGroup) → List (HostBackupName × BackupGroup)
  | [] => [(key, updateGroup entry none)]
  | g :: groups => if g.1 = key then (key, updateGroup entry (some g.2)) :: groups else g :: addToGroups key entry groups

def groupBackupsByHostName (entries : List Manifest) (allowedHosts : List Name) : List (HostBackupName × BackupGroup) :=
  entries.foldl (fun groups entry =>
    if entry.source.host ∉ allowedHosts ∨ entry.backupName = [] then groups
    else addToGroups ⟨entry.source.host, entry.backupName⟩ entry groups) []

/-- `latestCompletedStartTimePerHost`, at one host. -/
def latestCompletedStartTime (groups : List (HostBackupName × BackupGroup)) (host : Name) : Option ℤ :=
  groups.foldl (fun cur g =>
    if g.2.hasMetadata ∧ g.1.host = host then
      match cur with
      | none => some g.2.startTime
      | some t => if t < g.2.startTime then some g.2.startTime else some t
    else cur) none

def orphanBackupNames (entries : List Manifest) (allowedHosts : List Name) : List HostBackupName :=
  let groups := groupBackupsByHostName entries allowedHosts
  (groups.filter fun g => !g.2.hasMetadata && match latestCompletedStartTime groups g.1.host with
    | none => false
    | some completedAfter => decide (g.2.startTime < completedAfter)).map Prod.fst

def sweepOrphans (W : SweepDeps) (tc : TierConfig) (hostnames : List Name) : RepoProg (ℕ × List Err) :=
  ((listSnapshots tc.tier []).mapErr (.wrap "while executing Kopia command: %w" [])).bind fun entries =>
    deleteBackups W tc.tier (orphanBackupNames entries hostnames)

/-! ## Tiers -/

def groupHostnames (entries : List Manifest) : List Name :=
  entries.foldl (fun hostnames entry =>
    if entry.source.host ∈ hostnames then hostnames else hostnames ++ [entry.source.host]) []

def listClusterHostnames (tier : Tier) : RepoProg (List Name) :=
  ((listSnapshots tier [(backupContentTagName, metadataContent)]).mapErr
    (.wrap "while executing Kopia command: %w" [])).bind fun entries => .ret (groupHostnames entries)

/-- The outcome of a step that the sweep goes on after: whether it has deleted something, and its
errors. -/
def stepOutcome (text : String) (args : List Name) : Except Err (ℕ × List Err) → Bool × List Err
  | .ok (deleted, errs) => (decide (0 < deleted), errs.map (.wrap text args))
  | .error e => (false, [.wrap text args e])

/-- The loop of `sweepTier`. -/
def sweepClusters (D : Deps) (K : Codec) (P : Outside) (W : SweepDeps) (tc : TierConfig) :
    List Name → RepoProg (Bool × List Err)
  | [] => .ret (false, [])
  | hostname :: hostnames =>
    (sweepCluster K P W hostname tc).attempt.bind fun retention =>
    (applyWALRetention D hostname tc).attempt.bind fun walOut =>
    (sweepClusters D K P W tc hostnames).bind fun rest =>
    let out := stepOutcome "cluster %q: %w" [hostname] retention
    let walErrs := match walOut with
      | .ok _ => []
      | .error e => [.wrap "cluster %q WAL retention: %w" [hostname] e]
    .ret (out.1 || rest.1, out.2 ++ walErrs ++ rest.2)

/-- `sweepTier`, with the errors it joins. -/
def sweepTier (D : Deps) (K : Codec) (P : Outside) (W : SweepDeps) (tc : TierConfig) : RepoProg (List Err) :=
  ((listClusterHostnames tc.tier).mapErr (.wrap "while listing %s clusters: %w" [tc.name])).bind fun hostnames =>
  (sweepClusters D K P W tc hostnames).bind fun clusters =>
  (sweepOrphans W tc hostnames).attempt.bind fun orphans =>
  let out := stepOutcome "orphan snapshots: %w" [] orphans
  if clusters.1 || out.1 then
    .call (.refreshServer tc.tier) fun (r : Except Err Unit) => .ret (clusters.2 ++ out.2 ++ match r with
      | .ok _ => []
      | .error e => [.wrap "while refreshing the %s Kopia server: %w" [tc.name] e])
  else .ret (clusters.2 ++ out.2)

/-- `Sweeper`: whether there is a second tier. -/
structure Sweeper where
  tier2Enabled : Bool

/-- The configuration of tier 1 in `Sweep`. -/
def Sweeper.tier1Config (s : Sweeper) : TierConfig :=
  ⟨"tier1".toList, .tier1, RetentionPolicy.tier1Policy, true, if s.tier2Enabled then some .tier2 else none⟩

/-- The configuration of tier 2 in `Sweep`. -/
def tier2Config : TierConfig := ⟨"tier2".toList, .tier2, RetentionPolicy.tier2Policy, true, none⟩

/-- `Sweep`, with the errors it joins. -/
def Sweeper.sweep (D : Deps) (K : Codec) (P : Outside) (W : SweepDeps) (s : Sweeper) : RepoProg (List Err) :=
  (sweepTier D K P W s.tier1Config).attempt.bind fun out1 =>
  let errs := joined "while sweeping tier1 retention: %w" out1
  if s.tier2Enabled then
    (sweepTier D K P W tier2Config).attempt.bind fun out2 =>
      .ret (errs ++ joined "while sweeping tier2 retention: %w" out2)
  else .ret errs
where
  /-- The errors of a tier, as `Sweep` reports them. -/
  joined (text : String) : Except Err (List Err) → List Err
    | .ok errs => errs.map (.wrap text [])
    | .error e => [.wrap text [] e]

end Klio
