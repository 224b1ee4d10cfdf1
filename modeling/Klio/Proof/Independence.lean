import Klio.Lib.Directory
import Klio.Lib.Lockstep
import Klio.Proof.DeleteBackup
import Klio.Proof.Orphans
import Klio.Proof.Prune
import Klio.Proof.ReadOnly
import Klio.Proof.SweepOps
import Klio.Proof.Tier2Wait
import Klio.Proof.WalRetention

/-!
# A sweep of one cluster beside others

Everything that a sweep does is for one cluster, or for a tier as a whole. Two global states that agree on a
cluster, with failures that agree on what is done for it, agree on it after a sweep.

* `Sweeper.sweepFor`: the sweep with the party of each operation; `unmark_sweepFor` says that it is the sweep.
* `Spares`, `spares_exec`: what is done for others leaves the cluster alone.
* `Mine`, `mine_exec`: what is done for the cluster is answered alike in both, and the programs for it are in
  lockstep (`sweepCluster_twin`, `applyWALRetention_twin`, `deleteBackupSnapshots_twin`).
* `orphans_of`: which backups of a cluster are orphans depends on its own snapshots.
* `sweep_independent`: the whole sweep.
-/

namespace Klio

open Lib Prog List Function

variable {ι : Type}

/-! ## Whom an operation is for -/

/-- A program on the repositories, each operation for a cluster or for the tier as a whole. -/
abbrev PartyProg (α : Type) := Prog (Option Name × RepoOp) (fun x => RepoOp.Res x.2) Err α

/-- `deleteBackups`, each deletion for its cluster. -/
def deleteBackupsFor (W : SweepDeps) (tier : Tier) : List HostBackupName → PartyProg (ℕ × List Err)
  | [] => .ret (0, [])
  | t :: targets =>
    ((deleteBackupSnapshots tier t.host t.name W.deleteAttempts).mark (some t.host)).attempt.bind fun out =>
    (deleteBackupsFor W tier targets).bind fun rest => .ret (match out with
      | .ok _ => (rest.1 + 1, rest.2)
      | .error e => (rest.1, .wrap "while deleting backup %q of cluster %q: %w" [t.name, t.host] e :: rest.2))

/-- The loop of `sweepTier`, each round for its cluster. -/
def sweepClustersFor (D : Deps) (K : Codec) (P : Outside) (W : SweepDeps) (tc : TierConfig) :
    List Name → PartyProg (Bool × List Err)
  | [] => .ret (false, [])
  | hostname :: hostnames =>
    ((sweepCluster K P W hostname tc).mark (some hostname)).attempt.bind fun retention =>
    ((applyWALRetention D hostname tc).mark (some hostname)).attempt.bind fun walOut =>
    (sweepClustersFor D K P W tc hostnames).bind fun rest =>
    let out := stepOutcome "cluster %q: %w" [hostname] retention
    let walErrs := match walOut with
      | .ok _ => []
      | .error e => [.wrap "cluster %q WAL retention: %w" [hostname] e]
    .ret (out.1 || rest.1, out.2 ++ walErrs ++ rest.2)

/-- `sweepOrphans`: one listing of the tier, then deletions for the clusters. -/
def sweepOrphansFor (W : SweepDeps) (tc : TierConfig) (hostnames : List Name) : PartyProg (ℕ × List Err) :=
  (((listSnapshots tc.tier []).mapErr (.wrap "while executing Kopia command: %w" [])).mark none).bind fun entries =>
    deleteBackupsFor W tc.tier (orphanBackupNames entries hostnames)

/-- `sweepTier` -/
def sweepTierFor (D : Deps) (K : Codec) (P : Outside) (W : SweepDeps) (tc : TierConfig) : PartyProg (List Err) :=
  (((listClusterHostnames tc.tier).mapErr (.wrap "while listing %s clusters: %w" [tc.name])).mark none).bind fun hostnames =>
  (sweepClustersFor D K P W tc hostnames).bind fun clusters =>
  (sweepOrphansFor W tc hostnames).attempt.bind fun orphans =>
  let out := stepOutcome "orphan snapshots: %w" [] orphans
  if clusters.1 || out.1 then
    .call (none, .refreshServer tc.tier) fun (r : Except Err Unit) => .ret (clusters.2 ++ out.2 ++ match r with
      | .ok _ => []
      | .error e => [.wrap "while refreshing the %s Kopia server: %w" [tc.name] e])
  else .ret (clusters.2 ++ out.2)

/-- **`Sweep`, with the party of each operation.** -/
def Sweeper.sweepFor (D : Deps) (K : Codec) (P : Outside) (W : SweepDeps) (s : Sweeper) : PartyProg (List Err) :=
  (sweepTierFor D K P W s.tier1Config).attempt.bind fun out1 =>
  let errs := Sweeper.sweep.joined "while sweeping tier1 retention: %w" out1
  if s.tier2Enabled then
    (sweepTierFor D K P W tier2Config).attempt.bind fun out2 =>
      .ret (errs ++ Sweeper.sweep.joined "while sweeping tier2 retention: %w" out2)
  else .ret errs

section Unmark

variable (D : Deps) (K : Codec) (P : Outside) (W : SweepDeps)

theorem unmark_deleteBackupsFor (tier : Tier) (targets : List HostBackupName) :
    (deleteBackupsFor W tier targets).unmark = deleteBackups W tier targets := by
  induction targets with
  | nil => rfl
  | cons t targets ih =>
    simp only [deleteBackupsFor, deleteBackups, Prog.unmark_bind, Prog.unmark_attempt, Prog.unmark_mark, ih]
    refine congrArg _ (funext fun out => congrArg _ (funext fun rest => ?_))
    cases out <;> rfl

theorem unmark_sweepClustersFor (tc : TierConfig) (hostnames : List Name) :
    (sweepClustersFor D K P W tc hostnames).unmark = sweepClusters D K P W tc hostnames := by
  induction hostnames with
  | nil => rfl
  | cons hostname hostnames ih =>
    simp only [sweepClustersFor, sweepClusters, Prog.unmark_bind, Prog.unmark_attempt, Prog.unmark_mark, ih]
    refine congrArg _ (funext fun out => congrArg _ (funext fun walOut => congrArg _ (funext fun rest => ?_)))
    cases walOut <;> rfl

theorem unmark_sweepTierFor (tc : TierConfig) : (sweepTierFor D K P W tc).unmark = sweepTier D K P W tc := by
  simp only [sweepTierFor, sweepTier, sweepOrphansFor, sweepOrphans, Prog.unmark_bind, Prog.unmark_attempt, Prog.unmark_mark,
    unmark_sweepClustersFor, unmark_deleteBackupsFor]
  refine congrArg _ (funext fun hostnames => congrArg _ (funext fun clusters => congrArg _ (funext fun orphans => ?_)))
  split
  · exact congrArg _ (funext fun (r : Except Err Unit) => by cases r <;> rfl)
  · rfl

/-- **Without the parties it is the sweep.** -/
theorem unmark_sweepFor (s : Sweeper) : (s.sweepFor D K P W).unmark = s.sweep D K P W := by
  unfold Sweeper.sweepFor Sweeper.sweep
  rw [Prog.unmark_bind, Prog.unmark_attempt, unmark_sweepTierFor]
  refine congrArg _ (funext fun out1 => ?_)
  split
  · rw [Prog.unmark_bind, Prog.unmark_attempt, unmark_sweepTierFor]
    rfl
  · rfl

end Unmark

/-! ## What is of a cluster -/

def ofCluster (c : Name) (m : Manifest) : Bool := decide (m.source.host = c)

/-- **Two states agree on a cluster**: its snapshots on each tier, and its directory in each WAL repository, with
the retention policy. -/
structure AgreeOn (c : Name) (s s' : Repos ι) : Prop where
  snapshots : ∀ tier, (s.snapshots tier).filter (ofCluster c) = (s'.snapshots tier).filter (ofCluster c)
  wal : ∀ tier, SameDir c (s.wal tier) (s'.wal tier)

theorem AgreeOn.refl (c : Name) (s : Repos ι) : AgreeOn c s s := ⟨fun _ => rfl, fun _ => .refl c _⟩

theorem AgreeOn.symm {c : Name} {s s' : Repos ι} (h : AgreeOn c s s') : AgreeOn c s' s :=
  ⟨fun tier => (h.snapshots tier).symm, fun tier => (h.wal tier).symm⟩

theorem AgreeOn.trans {c : Name} {s s' s'' : Repos ι} (h : AgreeOn c s s') (h' : AgreeOn c s' s'') : AgreeOn c s s'' :=
  ⟨fun tier => (h.snapshots tier).trans (h'.snapshots tier), fun tier => (h.wal tier).trans (h'.wal tier)⟩

/-- A name of a cluster: a path component that is accepted, and neither empty nor `.` or `..`. -/
structure ClusterName (D : Deps) (c : Name) : Prop where
  plain : Plain c
  valid : validatePathComponent D c = .ok ()

/-- The IDs of `ids` are those of the cluster, and the clusters have names. -/
structure Sorted (D : Deps) (c : Name) (ids : Tier → Name → Prop) (s : Repos ι) : Prop where
  owned : ∀ tier, ∀ m ∈ s.snapshots tier, (ids tier m.id ↔ m.source.host = c)
  names : ∀ tier, ∀ m ∈ s.snapshots tier, ClusterName D m.source.host

section Spares

variable {D : Deps} {c : Name} {ids : Tier → Name → Prop} {B : Backups} {i : ι}

theorem Sorted.exec {s : Repos ι} (h : Sorted D c ids s) {o : RepoOp} (ho : ∀ m, o ≠ .migrateSnapshot m) (f : Option Fault) :
    Sorted D c ids (Repos.exec B i o f s).2 := by
  have hmem : ∀ tier, ∀ m ∈ (Repos.exec B i o f s).2.snapshots tier, m ∈ s.snapshots tier := by
    intro tier m hm
    rcases mem_of_mem_exec hm with hm | ⟨-, hmig, -⟩
    · exact hm
    · exact absurd hmig (ho m)
  exact ⟨fun tier m hm => h.owned tier m (hmem tier m hm), fun tier m hm => h.names tier m (hmem tier m hm)⟩

/-- What may be done for others. -/
def Spares (c : Name) (ids : Tier → Name → Prop) : RepoOp → Prop
  | .wal _ o => o.PrunesOutside c
  | .deleteSnapshot tier id => ¬ ids tier id
  | .migrateSnapshot _ => False
  | .listSnapshots _ _ | .restoreMetadata _ _ | .verifySnapshots _ | .setCompressionPolicy _ _ _ _ | .refreshServer _ => True

/-- A listing shows which snapshots are of the cluster. -/
def Told (c : Name) (ids : Tier → Name → Prop) : (o : RepoOp) → o.Res → Prop
  | .listSnapshots tier _, r => ∀ l, (r : Except Err (List Manifest)) = .ok l → ∀ m ∈ l, (ids tier m.id ↔ m.source.host = c)
  | _, _ => True

theorem filter_delete {s : Repos ι} {p : Manifest → Bool} {tier t : Tier} {id : Name}
    (h : t = tier → ∀ m ∈ s.snapshots t, p m = true → m.id ≠ id) : ((s.delete tier id).snapshots t).filter p = (s.snapshots t).filter p := by
  unfold Repos.delete Repos.setSnapshots
  by_cases ht : t = tier
  · subst ht
    simp only [update_self, filter_filter]
    refine filter_congr fun m hm => ?_
    cases hp : p m with
    | false => rfl
    | true => simpa using h rfl m hm hp
  · simp only [update_of_ne ht]

/-- **What is done for others leaves the cluster alone.** -/
theorem spares_exec {s : Repos ι} (h : Sorted D c ids s) {o : RepoOp} (ho : Spares c ids o) (f : Option Fault) :
    AgreeOn c s (Repos.exec B i o f s).2 ∧ Sorted D c ids (Repos.exec B i o f s).2 ∧ Told c ids o (Repos.exec B i o f s).1 := by
  have hnext : Sorted D c ids (Repos.exec B i o f s).2 := h.exec (by rintro m rfl; exact ho) f
  refine ⟨?_, hnext, ?_⟩
  · cases o with
    | wal tier o =>
      refine ⟨fun _ => rfl, fun t => ?_⟩
      show SameDir c (s.wal t) (update s.wal tier (Fs.exec o (ioFault f) (s.wal tier)).2 t)
      by_cases ht : t = tier
      · subst ht
        rw [update_self]
        exact sameDir_exec _ ho _
      · rw [update_of_ne ht]
        exact .refl c _
    | deleteSnapshot tier id =>
      rcases exec_delete B i f s tier id with heq | heq
      · rw [heq]
        refine ⟨fun t => (filter_delete ?_).symm, fun t => .refl c _⟩
        rintro rfl m hm hmine rfl
        exact ho ((h.owned _ m hm).mpr (of_decide_eq_true hmine))
      · rw [heq]
        exact .refl c s
    | migrateSnapshot m => exact ho.elim
    | listSnapshots | restoreMetadata | verifySnapshots | setCompressionPolicy | refreshServer => exact ⟨fun _ => rfl, fun _ => .refl c _⟩
  · cases o with
    | listSnapshots tier tags =>
      intro l hl m hm
      simp only [Repos.exec] at hl
      split at hl
      · cases hl
        exact h.owned tier m (mem_filter.mp hm).1
      · cases hl
    | wal | restoreMetadata | deleteSnapshot | migrateSnapshot | verifySnapshots | setCompressionPolicy | refreshServer => trivial

/-- Programs that spare the cluster. -/
def sparing (c : Name) (ids : Tier → Name → Prop) : Proto RepoOp RepoOp.Res Unit := ⟨fun _ o => Spares c ids o, fun _ _ _ => ()⟩

/-- The program spares the cluster, as long as listings show what is there. -/
abbrev Lib.Prog.SparesFor {α : Type} (c : Name) (ids : Tier → Name → Prop) (Q : α → Prop) (p : RepoProg α) : Prop :=
  p.SatIf (sparing c ids) (fun _ => Told c ids) (fun a _ => Q a) (fun _ _ => True) ()

theorem Lib.Prog.Uses.sparesFor {α : Type} : ∀ {p : RepoProg α}, p.Uses (Spares c ids) → p.SparesFor c ids fun _ => True := by
  intro p
  induction p with
  | ret a => exact fun _ => trivial
  | err e => exact fun _ => trivial
  | call o k ih => exact fun h => ⟨h.1, fun r _ => ih r (h.2 r)⟩

theorem IsQuery.spares {o : RepoOp} (h : IsQuery o) : Spares c ids o := by
  cases o with
  | wal tier o => cases o <;> first | exact h.elim | trivial
  | listSnapshots | restoreMetadata | refreshServer => trivial
  | deleteSnapshot | migrateSnapshot | verifySnapshots | setCompressionPolicy => exact h.elim

theorem sparesFor_queries {α : Type} {p : RepoProg α} (h : p.Uses IsQuery) : p.SparesFor c ids fun _ => True :=
  (uses_mono (fun _ => IsQuery.spares) h).sparesFor

theorem sparesFor_mapErr {α : Type} {Q : α → Prop} {p : RepoProg α} (h : p.SparesFor c ids Q) (g : Err → Err) :
    (p.mapErr g).SparesFor c ids Q := by
  have hout : p.attempt.SparesFor c ids fun out => ∀ a, out = .ok a → Q a := by
    refine satIf_attempt (satIf_mono (fun _ _ ha => ha) rfl h ?_ ?_)
    · rintro a _ hq a' ⟨⟩
      exact hq
    · rintro e _ - a' hno
      cases hno
  refine satIf_bind hout ?_
  intro out _ hend
  cases out with
  | ok a => exact hend a rfl
  | error e => trivial

theorem deleteSnapshots_each {L : RepoOp → Prop} {tier : Tier} : ∀ {entries : List Manifest},
    (∀ m ∈ entries, L (.deleteSnapshot tier m.id)) → (deleteSnapshots tier entries).Uses L := by
  intro entries
  induction entries with
  | nil => exact fun _ => trivial
  | cons e entries ih =>
    intro h
    exact ⟨h e mem_cons_self, fun _ => uses_map (ih fun m hm => h m (mem_cons_of_mem _ hm))⟩

theorem deleteBackupSnapshots_spares {tier : Tier} {host : Name} (hne : host ≠ c) (name : Name) (n : ℕ) :
    (deleteBackupSnapshots tier host name n).SparesFor c ids fun _ => True := by
  induction n with
  | zero => trivial
  | succ n ih =>
    have hlist : (listSnapshots tier [(backupNameTagName, name)]).SparesFor c ids fun l => ∀ m ∈ l, (ids tier m.id ↔ m.source.host = c) := by
      refine satIf_call trivial fun (r : Except Err (List Manifest)) hr => ?_
      cases r with
      | ok l => exact hr l rfl
      | error e => trivial
    refine satIf_bind (sparesFor_mapErr hlist _) ?_
    intro l _ hl
    dsimp only
    split
    · trivial
    have hdelete : (deleteSnapshots tier (l.filter fun e => e.source.host = host)).Uses (Spares c ids) := by
      refine deleteSnapshots_each fun m hm hid => ?_
      obtain ⟨hmem, hhost⟩ := mem_filter.mp hm
      exact hne ((of_decide_eq_true hhost).symm.trans ((hl m hmem).mp hid))
    refine satIf_bind hdelete.sparesFor ?_
    intro errs _ _
    split
    · trivial
    · exact ih

theorem deleteBackups_spares (W : SweepDeps) {tier : Tier} {targets : List HostBackupName} (hne : ∀ t ∈ targets, t.host ≠ c) :
    (deleteBackups W tier targets).SparesFor c ids fun _ => True := by
  induction targets with
  | nil => trivial
  | cons t targets ih =>
    have hone : (deleteBackupSnapshots tier t.host t.name W.deleteAttempts).attempt.SparesFor c ids fun _ => True :=
      satIf_attempt (deleteBackupSnapshots_spares (hne t mem_cons_self) _ _)
    refine satIf_bind hone ?_
    intro out _ _
    refine satIf_bind (ih fun x hx => hne x (mem_cons_of_mem _ hx)) ?_
    intro rest _ _
    trivial

theorem sweepCluster_spares (K : Codec) (P : Outside) (W : SweepDeps) {host : Name} (hne : host ≠ c) (tc : TierConfig) :
    (sweepCluster K P W host tc).SparesFor c ids fun _ => True := by
  refine satIf_bind (sparesFor_queries (uses_mapErr (uses_onWAL (getClusterRetentionPolicy_uses trivial)))) ?_
  intro policy _ _
  split
  · trivial
  split
  · trivial
  refine satIf_bind (sparesFor_queries (uses_mapErr (listBackups_uses _ host))) ?_
  intro backups _ _
  split
  · trivial
  refine satIf_bind (sparesFor_queries (deletionCandidates_uses W host tc policy _ backups)) ?_
  intro toDelete _ _
  refine deleteBackups_spares W fun t ht => ?_
  obtain ⟨b, -, rfl⟩ := mem_map.mp ht
  exact hne

/-- The paths that `SetFirstRequiredOnCluster` uses: the directory of the cluster, its directories, and their files. -/
theorem setFirstRequired_each {L : FsOp Name UInt8 Msg → Prop} {host : Name} (hhost : Plain host) (firstWAL : Name) (D : Deps)
    (hlook : ∀ rest, L (.readDir (host :: rest))) (hremove : ∀ rest, L (.remove (host :: rest))) (hemit : ∀ m, L (.emit m)) :
    (setFirstRequiredOnCluster D host firstWAL).Uses L := by
  have hroot : joinPath [host] = [host] := joinPath_append hhost []
  have hremoves : ∀ (d : Name) (entries : List (DirEntry Name)), (removeObsolete D [host, d] firstWAL entries : FsProg Msg Unit).Uses L := by
    intro d entries
    induction entries with
    | nil => trivial
    | cons e entries ih =>
      unfold removeObsolete
      split
      · rename_i he
        rw [pushComponent_plain (isObsolete_plain he)]
        exact ⟨hremove _, fun _ => ih⟩
      · exact ih
  have hdir : ∀ d : Name, (setFirstRequiredOnDirectory D [host, d] firstWAL : FsProg Msg Unit).Uses L := by
    intro d
    refine ⟨hlook _, fun (r : Except FsErr (List (DirEntry Name))) => ?_⟩
    rcases r with e | entries
    · trivial
    refine uses_bind (fun _ => ?_) (hremoves d entries)
    refine ⟨hlook _, fun (r : Except FsErr (List (DirEntry Name))) => ?_⟩
    rcases r with e | left
    · trivial
    dsimp only
    split
    · exact ⟨hremove _, fun _ => trivial⟩
    · trivial
  have hentries : ∀ entries : List (DirEntry Name), (setFirstRequiredOnEntries D [host] firstWAL entries : FsProg Msg Unit).Uses L := by
    intro entries
    induction entries with
    | nil => trivial
    | cons e entries ih =>
      unfold setFirstRequiredOnEntries
      split
      · rename_i he
        simp only [Bool.and_eq_true, beq_iff_eq] at he
        rw [pushComponent_plain (plain_of_byteLen he.1.2)]
        exact uses_bind (fun _ => ih) (uses_attempt (hdir e.name))
      · exact ih
  refine ⟨hemit _, fun _ => ?_⟩
  unfold setFirstRequired
  rw [hroot]
  refine ⟨hlook _, fun (r : Except FsErr (List (DirEntry Name))) => ?_⟩
  rcases r with e | entries
  · trivial
  split
  · trivial
  · exact hentries entries

theorem retainWALOf_each {L : RepoOp → Prop} {tier : Tier} {host : Name} {backups : List BackupMetadata}
    (h : ∀ firstWAL, (setFirstRequiredOnCluster D host firstWAL).Uses fun o => L (.wal tier o)) :
    (retainWALOf D host tier backups).Uses L := by
  unfold retainWALOf
  split
  · trivial
  split
  · trivial
  split
  · trivial
  · exact uses_onWAL (h _)

theorem applyWALRetention_spares {host : Name} (hhost : Plain host) (hne : host ≠ c) (tc : TierConfig) :
    (applyWALRetention D host tc).SparesFor c ids fun _ => True := by
  unfold applyWALRetention
  split
  · trivial
  refine satIf_bind (sparesFor_queries (uses_mapErr (listBackups_uses _ host))) ?_
  intro backups _ _
  refine Prog.Uses.sparesFor (retainWALOf_each fun firstWAL => ?_)
  refine setFirstRequired_each hhost firstWAL D (fun _ => trivial) (fun rest hpre => ?_) fun _ => trivial
  exact hne (cons_prefix_cons.mp hpre).1.symm

end Spares

/-! ## What is done for the cluster -/

section Mine

variable {D : Deps} {c : Name} {ids : Tier → Name → Prop} {i : ι}

/-- What may be done for the cluster. -/
def Mine (c : Name) (ids : Tier → Name → Prop) : RepoOp → Prop
  | .wal _ o => o.PrunesIn c
  | .listSnapshots _ _ => True
  | .restoreMetadata tier id | .deleteSnapshot tier id => ids tier id
  | .migrateSnapshot _ | .verifySnapshots _ | .setCompressionPolicy _ _ _ _ | .refreshServer _ => False

/-- Two listings show the same snapshots of the cluster. -/
def SameListing (c : Name) (ids : Tier → Name → Prop) (tier : Tier) (l l' : List Manifest) : Prop :=
  l.filter (ofCluster c) = l'.filter (ofCluster c) ∧ ∀ m ∈ l.filter (ofCluster c), ids tier m.id

/-- Answers that are alike as far as the cluster goes. -/
def AlikeFor (c : Name) (ids : Tier → Name → Prop) : (o : RepoOp) → o.Res → o.Res → Prop
  | .listSnapshots tier _, r, r' => SameOutcome (SameListing c ids tier) (r : Except Err (List Manifest)) r'
  | _, r, r' => r = r'

/-- The snapshots of the cluster have the same content in both. -/
def SameContent (ids : Tier → Name → Prop) (B B' : Backups) : Prop :=
  ∀ tier id, ids tier id → B.metadata id = B'.metadata id ∧ B.unreadable tier id = B'.unreadable tier id

theorem Sorted.missing_iff {s : Repos ι} (h : Sorted D c ids s) {tier : Tier} {id : Name} (hid : ids tier id) :
    (∀ m ∈ s.snapshots tier, m.id ≠ id) ↔ ∀ m ∈ (s.snapshots tier).filter (ofCluster c), m.id ≠ id := by
  refine ⟨fun hall m hm => hall m (mem_filter.mp hm).1, fun hall m hm heq => ?_⟩
  have hmine : m.source.host = c := (h.owned tier m hm).mp (by rw [heq]; exact hid)
  exact hall m (mem_filter.mpr ⟨hm, decide_eq_true hmine⟩) heq

theorem AgreeOn.delete {s s' : Repos ι} (h : AgreeOn c s s') (tier : Tier) (id : Name) : AgreeOn c (s.delete tier id) (s'.delete tier id) := by
  refine ⟨fun t => ?_, h.wal⟩
  unfold Repos.delete Repos.setSnapshots
  by_cases ht : t = tier
  · subst ht
    simp only [update_self]
    rw [filter_comm, h.snapshots t, filter_comm]
  · simp only [update_of_ne ht]
    exact h.snapshots t

/-- **What is done for the cluster is answered alike in both**, and they agree on it afterwards. -/
theorem mine_exec {s s' : Repos ι} {B B' : Backups} (h : AgreeOn c s s') (hs : Sorted D c ids s) (hs' : Sorted D c ids s')
    (hB : SameContent ids B B') {o : RepoOp} (ho : Mine c ids o) (f : Option Fault) :
    AlikeFor c ids o (Repos.exec B i o f s).1 (Repos.exec B' i o f s').1 ∧
      AgreeOn c (Repos.exec B i o f s).2 (Repos.exec B' i o f s').2 := by
  have hmissing : ∀ {tier id}, ids tier id → ((∀ m ∈ s.snapshots tier, m.id ≠ id) ↔ ∀ m ∈ s'.snapshots tier, m.id ≠ id) := by
    intro tier id hid
    rw [hs.missing_iff hid, hs'.missing_iff hid, h.snapshots]
  cases o with
  | wal tier o =>
    obtain ⟨hanswer, hdir⟩ := (h.wal tier).exec ho (ioFault f)
    refine ⟨hanswer, h.snapshots, fun t => ?_⟩
    show SameDir c (update s.wal tier (Fs.exec o (ioFault f) (s.wal tier)).2 t)
      (update s'.wal tier (Fs.exec o (ioFault f) (s'.wal tier)).2 t)
    by_cases ht : t = tier
    · subst ht
      rw [update_self, update_self]
      exact hdir
    · rw [update_of_ne ht, update_of_ne ht]
      exact h.wal t
  | listSnapshots tier tags =>
    refine ⟨?_, h⟩
    simp only [Repos.exec, AlikeFor]
    split
    · refine ⟨?_, ?_⟩
      · rw [filter_comm, h.snapshots tier, filter_comm]
      · intro m hm
        obtain ⟨hlisted, hmine⟩ := mem_filter.mp hm
        exact (hs.owned tier m (mem_filter.mp hlisted).1).mpr (of_decide_eq_true hmine)
    · rfl
  | restoreMetadata tier id =>
    refine ⟨?_, h⟩
    obtain ⟨hmeta, hread⟩ := hB tier id ho
    simp only [Repos.exec, AlikeFor, hmeta, hread, hmissing ho]
    exact if_congr Iff.rfl rfl rfl
  | deleteSnapshot tier id =>
    simp only [Repos.exec, AlikeFor, hmissing ho]
    split
    · split
      · exact ⟨rfl, h⟩
      · exact ⟨rfl, h.delete tier id⟩
    · split
      · exact ⟨rfl, h.delete tier id⟩
      · exact ⟨rfl, h⟩
  | migrateSnapshot | verifySnapshots | setCompressionPolicy | refreshServer => exact ho.elim

/-! ## Lockstep for the cluster -/

/-- Two programs for the cluster, in lockstep. -/
abbrev TwinFor (c : Name) (ids : Tier → Name → Prop) {α : Type} (Q : α → α → Prop) (p p' : RepoProg α) : Prop :=
  Twin (Mine c ids) (AlikeFor c ids) Q p p'

/-- Operations whose answers are the same in both. -/
def MineSame (c : Name) (ids : Tier → Name → Prop) : RepoOp → Prop
  | .listSnapshots _ _ => False
  | o => Mine c ids o

theorem twinFor_self {α : Type} {p : RepoProg α} (hp : p.Uses (MineSame c ids)) : TwinFor c ids Eq p p := by
  refine Prog.Uses.twin (uses_mono ?_ hp)
  intro o ho
  cases o with
  | listSnapshots => exact ho.elim
  | wal | restoreMetadata | deleteSnapshot => exact ⟨ho, fun _ _ h => h⟩
  | migrateSnapshot | verifySnapshots | setCompressionPolicy | refreshServer => exact ho.elim

theorem listSnapshots_twin (tier : Tier) (tags : List (Name × Name)) :
    TwinFor c ids (SameListing c ids tier) (listSnapshots tier tags) (listSnapshots tier tags) := by
  refine .call trivial fun (r r' : Except Err (List Manifest)) hr => ?_
  match r, r', hr with
  | .ok l, .ok l', hl => exact .ret hl
  | .error e, .error e', heq =>
    obtain rfl : e = e' := heq
    exact .err e

variable (hc : c ≠ [])
include hc

theorem restoreEntries_filter (tier : Tier) (l : List Manifest) : restoreEntries tier c l = restoreEntries tier c (l.filter (ofCluster c)) := by
  induction l with
  | nil => rfl
  | cons m l ih =>
    by_cases hm : m.source.host = c
    · rw [filter_cons_of_pos (by simp [ofCluster, hm])]
      unfold restoreEntries
      rw [if_neg (by simp [hm]), if_neg (by simp [hm]), ih]
    · rw [filter_cons_of_neg (by simp [ofCluster, hm])]
      conv_lhs => unfold restoreEntries
      rw [if_pos ⟨hc, hm⟩, ih]

omit hc in
theorem restoreEntries_each {tier : Tier} : ∀ {l : List Manifest}, (∀ m ∈ l, ids tier m.id) → (restoreEntries tier c l).Uses (MineSame c ids) := by
  intro l
  induction l with
  | nil => exact fun _ => trivial
  | cons m l ih =>
    intro h
    have hl := ih fun x hx => h x (mem_cons_of_mem _ hx)
    unfold restoreEntries
    split
    · exact hl
    · refine ⟨h m mem_cons_self, fun (r : Except Err BackupMetadata) => ?_⟩
      cases r with
      | error e => exact hl
      | ok metadata => exact uses_map hl

theorem listBackups_twin (tier : Tier) : TwinFor c ids Eq (listBackups tier c) (listBackups tier c) := by
  refine ((listSnapshots_twin tier _).mapErr _).bind ?_
  rintro l l' ⟨heq, hids⟩
  rw [restoreEntries_filter hc tier l, restoreEntries_filter hc tier l', ← heq]
  exact twinFor_self (restoreEntries_each hids)

omit hc in
theorem deleteBackupSnapshots_twin (tier : Tier) (name : Name) (n : ℕ) :
    TwinFor c ids Eq (deleteBackupSnapshots tier c name n) (deleteBackupSnapshots tier c name n) := by
  induction n with
  | zero => exact .err _
  | succ n ih =>
    refine ((listSnapshots_twin tier _).mapErr _).bind ?_
    rintro l l' ⟨heq, hids⟩
    have hentries : (l'.filter fun e => e.source.host = c) = l.filter fun e => e.source.host = c := heq.symm
    simp only [hentries]
    split
    · exact .err _
    refine (twinFor_self (deleteSnapshots_each hids)).bind ?_
    rintro errs - rfl
    split
    · exact .ret rfl
    · exact ih

omit hc in
theorem deleteBackups_twin (W : SweepDeps) (tier : Tier) (names : List Name) :
    TwinFor c ids Eq (deleteBackups W tier (names.map fun n => ⟨c, n⟩)) (deleteBackups W tier (names.map fun n => ⟨c, n⟩)) := by
  induction names with
  | nil => exact .ret rfl
  | cons n names ih =>
    refine (deleteBackupSnapshots_twin tier n _).attempt.bind ?_
    intro out out' hout
    obtain rfl : out = out' := by
      match out, out', hout with
      | .ok _, .ok _, rfl => rfl
      | .error _, .error _, rfl => rfl
    refine ih.bind ?_
    rintro rest - rfl
    exact .ret rfl

theorem deletionCandidates_twin (W : SweepDeps) (tc : TierConfig) (policy : RetentionPolicy) (evaluator : LatestPolicy)
    (backups : List BackupMetadata) :
    TwinFor c ids Eq (deletionCandidates W c tc policy evaluator backups) (deletionCandidates W c tc policy evaluator backups) := by
  unfold deletionCandidates
  dsimp only
  split
  · refine Twin.mapErr _ (((listBackups_twin hc _).mapErr _).bind ?_)
    rintro tier2Backups - rfl
    exact .ret rfl
  · exact .ret rfl

omit hc in
/-- The retention policy of the cluster is in its directory. -/
theorem policy_twin (hplain : Plain c) (K : Codec) (P : Outside) :
    TwinFor c ids Eq (onWAL .tier1 (getClusterRetentionPolicy K P c)) (onWAL .tier1 (getClusterRetentionPolicy K P c)) := by
  refine twinFor_self (uses_onWAL (getClusterRetentionPolicy_uses ?_))
  have hlen : byteLen (trimSuffix retentionPolicyFileName (pathExt retentionPolicyFileName)) ≠ expectedWalFileNameLength := by decide
  have hname : Plain retentionPolicyFileName := plain_of_length (by decide)
  have hpath : getWALArchivePath c retentionPolicyFileName = [c] ++ [retentionPolicyFileName] := by
    unfold getWALArchivePath
    rw [if_neg hlen]
    exact (joinPath_append hname [c]).trans (congrArg (· ++ [retentionPolicyFileName]) (joinPath_append hplain []))
  rw [hpath]
  exact prefix_append _ _

omit hc in
theorem sweepCluster_twin (hplain : Plain c) (K : Codec) (P : Outside) (W : SweepDeps) (tc : TierConfig) :
    TwinFor c ids Eq (sweepCluster K P W c tc) (sweepCluster K P W c tc) := by
  refine ((policy_twin hplain K P).mapErr _).bind ?_
  rintro policy - rfl
  split
  · exact .ret rfl
  split
  · exact .err _
  refine ((listBackups_twin hplain.1 _).mapErr _).bind ?_
  rintro backups - rfl
  split
  · exact .ret rfl
  refine (deletionCandidates_twin hplain.1 W tc policy _ backups).bind ?_
  rintro toDelete - rfl
  have htargets : (toDelete.map fun b => (⟨c, b.name⟩ : HostBackupName)) = (toDelete.map BackupMetadata.name).map fun n => ⟨c, n⟩ := by
    rw [map_map]
    rfl
  rw [htargets]
  exact deleteBackups_twin W _ _

omit hc in
theorem applyWALRetention_twin (hplain : Plain c) (tc : TierConfig) :
    TwinFor c ids Eq (applyWALRetention D c tc) (applyWALRetention D c tc) := by
  unfold applyWALRetention
  split
  · exact .ret rfl
  refine ((listBackups_twin hplain.1 _).mapErr _).bind ?_
  rintro backups - rfl
  refine twinFor_self (retainWALOf_each fun firstWAL => ?_)
  exact setFirstRequired_each hplain firstWAL D (fun rest => prefix_append [c] rest) (fun rest => prefix_append [c] rest)
    fun _ => trivial

end Mine

/-! ## Orphans of a cluster -/

section Orphans

variable {c : Name}

def groupOf (c : Name) (g : HostBackupName × BackupGroup) : Bool := decide (g.1.host = c)

theorem addToGroups_mine {key : HostBackupName} (hkey : key.host = c) (e : Manifest) : ∀ groups,
    (addToGroups key e groups).filter (groupOf c) = addToGroups key e (groups.filter (groupOf c)) := by
  intro groups
  induction groups with
  | nil => simp [addToGroups, groupOf, hkey]
  | cons g groups ih =>
    unfold addToGroups
    by_cases hg : g.1 = key
    · have hmine : groupOf c g = true := by simp [groupOf, hg, hkey]
      rw [if_pos hg, filter_cons_of_pos (by simp [groupOf, hkey]), filter_cons_of_pos hmine]
      dsimp only
      rw [if_pos hg]
    · rw [if_neg hg]
      by_cases hmine : groupOf c g = true
      · rw [filter_cons_of_pos hmine, filter_cons_of_pos hmine, ih]
        dsimp only
        rw [if_neg hg]
      · rw [filter_cons_of_neg hmine, filter_cons_of_neg hmine, ih]
        cases hrest : groups.filter (groupOf c) <;> rfl

theorem addToGroups_other {key : HostBackupName} (hkey : key.host ≠ c) (e : Manifest) : ∀ groups,
    (addToGroups key e groups).filter (groupOf c) = groups.filter (groupOf c) := by
  intro groups
  induction groups with
  | nil => simp [addToGroups, groupOf, hkey]
  | cons g groups ih =>
    unfold addToGroups
    by_cases hg : g.1 = key
    · rw [if_pos hg, filter_cons_of_neg (by simp [groupOf, hkey]), filter_cons_of_neg (by simp [groupOf, hg, hkey])]
    · rw [if_neg hg, filter_cons, filter_cons, ih]

/-- **The groups of a cluster come from its own entries.** -/
theorem groups_mine {hosts hosts' : List Name} (hhosts : c ∈ hosts ↔ c ∈ hosts') {entries entries' : List Manifest}
    (h : entries.filter (ofCluster c) = entries'.filter (ofCluster c)) :
    (groupBackupsByHostName entries hosts).filter (groupOf c) = (groupBackupsByHostName entries' hosts').filter (groupOf c) := by
  have hskip : ∀ {hosts : List Name} {e : Manifest}, ofCluster c e = false → ∀ g : List (HostBackupName × BackupGroup),
      (if e.source.host ∉ hosts ∨ e.backupName = [] then g else addToGroups ⟨e.source.host, e.backupName⟩ e g).filter (groupOf c) =
        g.filter (groupOf c) := by
    intro hosts e hother g
    have hne : (⟨e.source.host, e.backupName⟩ : HostBackupName).host ≠ c := of_decide_eq_false hother
    split
    · rfl
    · exact addToGroups_other hne e g
  refine foldl_twice (P := fun _ => True) (J := fun g g' => g.filter (groupOf c) = g'.filter (groupOf c)) ?_ ?_ ?_ entries entries' [] []
    (fun _ _ => trivial) (fun _ _ => trivial) h rfl
  · exact fun e g g' _ hother hg => (hskip hother g).trans hg
  · exact fun e g g' _ hother hg => hg.trans (hskip hother g').symm
  · intro e g g' _ hmine hg
    have hhost : e.source.host = c := of_decide_eq_true hmine
    simp only [hhost, hhosts]
    split
    · exact hg
    · have hkey : (⟨c, e.backupName⟩ : HostBackupName).host = c := rfl
      rw [addToGroups_mine hkey, addToGroups_mine hkey, hg]

theorem latestCompleted_mine (groups : List (HostBackupName × BackupGroup)) :
    latestCompletedStartTime groups c = latestCompletedStartTime (groups.filter (groupOf c)) c := by
  unfold latestCompletedStartTime
  generalize (none : Option ℤ) = start
  induction groups generalizing start with
  | nil => rfl
  | cons g groups ih =>
    by_cases hg : g.1.host = c
    · rw [filter_cons_of_pos (by simp [groupOf, hg]), foldl_cons, foldl_cons]
      exact ih _
    · rw [filter_cons_of_neg (by simp [groupOf, hg]), foldl_cons, if_neg (fun h => hg h.2)]
      exact ih _

/-- A group without metadata that started before the latest completed backup of its cluster. -/
def isOrphan (latest : Option ℤ) (g : HostBackupName × BackupGroup) : Bool :=
  !g.2.hasMetadata && match latest with
    | none => false
    | some completedAfter => decide (g.2.startTime < completedAfter)

/-- **The orphans of a cluster depend on its own snapshots.** -/
theorem orphans_of (entries : List Manifest) (hosts : List Name) :
    (orphanBackupNames entries hosts).filter (fun t => decide (t.host = c)) =
      let groups := (groupBackupsByHostName entries hosts).filter (groupOf c)
      (groups.filter (isOrphan (latestCompletedStartTime groups c))).map Prod.fst := by
  dsimp only
  rw [← latestCompleted_mine]
  unfold orphanBackupNames
  rw [filter_map, filter_filter, filter_filter]
  refine congrArg _ (filter_congr fun g _ => ?_)
  by_cases hg : g.1.host = c
  · simp only [comp_apply, groupOf, hg, decide_true, Bool.true_and, Bool.and_true]
    rfl
  · have hother : decide (g.1.host = c) = false := decide_eq_false hg
    simp only [comp_apply, groupOf, hother, Bool.false_and, Bool.and_false]

theorem orphans_congr {hosts hosts' : List Name} (hhosts : c ∈ hosts ↔ c ∈ hosts') {entries entries' : List Manifest}
    (h : entries.filter (ofCluster c) = entries'.filter (ofCluster c)) :
    (orphanBackupNames entries hosts).filter (fun t => decide (t.host = c)) =
      (orphanBackupNames entries' hosts').filter fun t => decide (t.host = c) := by
  rw [orphans_of, orphans_of, groups_mine hhosts h]

/-- Each host is listed once. -/
theorem groupHostnames_spec (entries : List Manifest) :
    (groupHostnames entries).Nodup ∧ ∀ h, h ∈ groupHostnames entries ↔ ∃ m ∈ entries, m.source.host = h := by
  induction entries using reverseRecOn with
  | nil => exact ⟨nodup_nil, fun h => by simp [groupHostnames]⟩
  | append_singleton entries e ih =>
    obtain ⟨hnodup, hmem⟩ := ih
    have hlast : groupHostnames (entries ++ [e]) = if e.source.host ∈ groupHostnames entries then groupHostnames entries
        else groupHostnames entries ++ [e.source.host] := foldl_concat ..
    rw [hlast]
    simp only [mem_append, mem_singleton, or_and_right, exists_or, exists_eq_left]
    split
    · rename_i hold
      refine ⟨hnodup, fun h => (hmem h).trans ⟨.inl, ?_⟩⟩
      rintro (hin | rfl)
      · exact hin
      · exact (hmem _).mp hold
    · rename_i hnew
      refine ⟨nodup_append.mpr ⟨hnodup, nodup_singleton _, ?_⟩, fun h => ?_⟩
      · rintro x hx y hy rfl
        exact hnew (mem_singleton.mp hy ▸ hx)
      · rw [mem_append, hmem, mem_singleton, eq_comm (a := h)]

theorem filter_eq_of_nodup {l : List Name} (h : l.Nodup) : l.filter (fun n => decide (n = c)) = if c ∈ l then [c] else [] := by
  induction l with
  | nil => rfl
  | cons n l ih =>
    obtain ⟨hn, hl⟩ := nodup_cons.mp h
    by_cases hnc : n = c
    · subst hnc
      rw [filter_cons_of_pos (by simp), ih hl, if_neg hn, if_pos mem_cons_self]
    · rw [filter_cons_of_neg (by simp [hnc]), ih hl]
      exact if_congr (by simp [Ne.symm hnc]) rfl rfl

theorem hostnames_mine {entries entries' : List Manifest} (h : entries.filter (ofCluster c) = entries'.filter (ofCluster c)) :
    (c ∈ groupHostnames entries ↔ c ∈ groupHostnames entries') ∧
      (groupHostnames entries).filter (fun n => decide (n = c)) = (groupHostnames entries').filter fun n => decide (n = c) := by
  have hmem : ∀ entries : List Manifest, c ∈ groupHostnames entries ↔ entries.filter (ofCluster c) ≠ [] := by
    intro entries
    rw [(groupHostnames_spec entries).2, ne_eq, filter_eq_nil_iff]
    simp [ofCluster]
  have hiff : c ∈ groupHostnames entries ↔ c ∈ groupHostnames entries' := by rw [hmem, hmem, h]
  refine ⟨hiff, ?_⟩
  rw [filter_eq_of_nodup (groupHostnames_spec entries).1, filter_eq_of_nodup (groupHostnames_spec entries').1]
  exact if_congr hiff rfl rfl

end Orphans

/-! ## The whole sweep -/

/-- What an operation meets, by the party it is for and what was done for this party. -/
abbrev Faults := Option Name → List RepoOp → RepoOp → Option Fault

def ListingsSucceed (φ : Faults) : Prop := ∀ done tier tags, kopiaFault (φ none done (.listSnapshots tier tags)) = none

/-- A state, with what was done for each party. -/
abbrev Played (ι : Type) := Repos ι × (Option Name → List RepoOp)

/-- **Two runs in step on a cluster.** -/
structure InStepOn (D : Deps) (c : Name) (ids : Tier → Name → Prop) (s s' : Played ι) : Prop where
  agree : AgreeOn c s.1 s'.1
  sorted : Sorted D c ids s.1
  sorted' : Sorted D c ids s'.1
  done : s.2 (some c) = s'.2 (some c)

section Runs

variable {D : Deps} {K : Codec} {P : Outside} {W : SweepDeps} {c : Name} {ids : Tier → Name → Prop} {B B' : Backups} {φ φ' : Faults} {i : ι}
  {s s' : Played ι}

theorem InStepOn.symm (h : InStepOn D c ids s s') : InStepOn D c ids s' s := ⟨h.agree.symm, h.sorted', h.sorted, h.done.symm⟩

/-- **A program for another party** keeps the runs in step. -/
theorem InStepOn.others (h : InStepOn D c ids s s') {t : Option Name} (ht : t ≠ some c) {α : Type} {Q : α → Prop} {p : RepoProg α}
    (hp : p.SparesFor c ids Q) : InStepOn D c ids ((p.mark t).played (repoSem ι B) i φ s).2 s' := by
  refine played_satIf (repoSem ι B) i φ (fun x => InStepOn D c ids x s') ?_ hp h
  intro _ o x hx ho
  obtain ⟨hagree, hsorted, htold⟩ := spares_exec (B := B) (i := i) hx.sorted ho (φ t (x.2 t) o)
  refine ⟨htold, hagree.symm.trans hx.agree, hsorted, hx.sorted', ?_⟩
  show update x.2 t (x.2 t ++ [o]) (some c) = _
  rw [update_of_ne (Ne.symm ht)]
  exact hx.done

theorem InStepOn.others' (h : InStepOn D c ids s s') {t : Option Name} (ht : t ≠ some c) {α : Type} {Q : α → Prop} {p : RepoProg α}
    (hp : p.SparesFor c ids Q) : InStepOn D c ids s ((p.mark t).played (repoSem ι B) i φ s').2 :=
  (h.symm.others ht hp).symm

/-- **Programs for the cluster in lockstep** keep the runs in step. -/
theorem InStepOn.mine (h : InStepOn D c ids s s') (hφ : φ (some c) = φ' (some c)) (hB : SameContent ids B B') {α : Type}
    {Q : α → α → Prop} {p p' : RepoProg α} (hp : TwinFor c ids Q p p') :
    InStepOn D c ids ((p.mark (some c)).played (repoSem ι B) i φ s).2 ((p'.mark (some c)).played (repoSem ι B') i φ' s').2 := by
  refine (played_twin (repoSem ι B) i φ (repoSem ι B') φ' (InStepOn D c ids) ?_ hp h).2
  intro o x x' ho hx
  have hfault : φ' (some c) (x'.2 (some c)) o = φ (some c) (x.2 (some c)) o := by rw [hφ, hx.done]
  have hstep := mine_exec (i := i) hx.agree hx.sorted hx.sorted' hB ho (φ (some c) (x.2 (some c)) o)
  have hne : ∀ m, o ≠ .migrateSnapshot m := by
    rintro m rfl
    exact ho
  simp only [markedSem, repoSem, hfault]
  refine ⟨hstep.1, hstep.2, hx.sorted.exec hne _, hx.sorted'.exec hne _, ?_⟩
  simp only [update_self, hx.done]

/-! ### Deletions -/

variable (B φ i) in
/-- One deletion of `deleteBackups`. -/
def deleteRound (W : SweepDeps) (tier : Tier) (s : Played ι) (t : HostBackupName) : Played ι :=
  (((deleteBackupSnapshots tier t.host t.name W.deleteAttempts).mark (some t.host)).played (repoSem ι B) i φ s).2

theorem played_deleteBackupsFor (tier : Tier) : ∀ (targets : List HostBackupName) (s : Played ι),
    ∃ x, (deleteBackupsFor W tier targets).played (repoSem ι B) i φ s = (.ok x, targets.foldl (deleteRound B φ i W tier) s) := by
  intro targets
  induction targets with
  | nil => exact fun s => ⟨_, rfl⟩
  | cons t targets ih =>
    intro s
    obtain ⟨x, hx⟩ := ih (deleteRound B φ i W tier s t)
    unfold deleteBackupsFor
    rw [played_attempt_bind]
    have hrest := played_bind_ok (repoSem ι B) i φ hx (fun rest => .ret (match
      (((deleteBackupSnapshots tier t.host t.name W.deleteAttempts).mark (some t.host)).played (repoSem ι B) i φ s).1 with
      | .ok _ => (rest.1 + 1, rest.2)
      | .error e => (rest.1, .wrap "while deleting backup %q of cluster %q: %w" [t.name, t.host] e :: rest.2)) :
        ℕ × List Err → PartyProg (ℕ × List Err))
    exact ⟨_, hrest⟩

theorem InStepOn.deletions (h : InStepOn D c ids s s') (hφ : φ (some c) = φ' (some c)) (hB : SameContent ids B B') (tier : Tier)
    {targets targets' : List HostBackupName}
    (htargets : targets.filter (fun t => decide (t.host = c)) = targets'.filter fun t => decide (t.host = c)) :
    InStepOn D c ids (targets.foldl (deleteRound B φ i W tier) s) (targets'.foldl (deleteRound B' φ' i W tier) s') := by
  refine foldl_twice (P := fun _ => True) (J := InStepOn D c ids) ?_ ?_ ?_ targets targets' s s' (fun _ _ => trivial) (fun _ _ => trivial)
    htargets h
  · intro t x x' _ hother hx
    have hne : t.host ≠ c := of_decide_eq_false hother
    exact hx.others (fun heq => hne (Option.some.inj heq)) (deleteBackupSnapshots_spares hne _ _)
  · intro t x x' _ hother hx
    have hne : t.host ≠ c := of_decide_eq_false hother
    exact hx.others' (fun heq => hne (Option.some.inj heq)) (deleteBackupSnapshots_spares hne _ _)
  · intro t x x' _ hmine hx
    have hhost : t.host = c := of_decide_eq_true hmine
    unfold deleteRound
    rw [hhost]
    exact hx.mine hφ hB (deleteBackupSnapshots_twin tier t.name _)

/-! ### Clusters -/

variable (D K P W B φ i) in
/-- One round of the loop of `sweepTier`. -/
def clusterRound (tc : TierConfig) (s : Played ι) (host : Name) : Played ι :=
  (((applyWALRetention D host tc).mark (some host)).played (repoSem ι B) i φ
    (((sweepCluster K P W host tc).mark (some host)).played (repoSem ι B) i φ s).2).2

theorem played_sweepClustersFor (tc : TierConfig) : ∀ (hosts : List Name) (s : Played ι),
    ∃ x, (sweepClustersFor D K P W tc hosts).played (repoSem ι B) i φ s = (.ok x, hosts.foldl (clusterRound D K P W B φ i tc) s) := by
  intro hosts
  induction hosts with
  | nil => exact fun s => ⟨_, rfl⟩
  | cons host hosts ih =>
    intro s
    obtain ⟨x, hx⟩ := ih (clusterRound D K P W B φ i tc s host)
    unfold sweepClustersFor
    rw [played_attempt_bind, played_attempt_bind]
    refine ⟨_, (played_bind_ok (repoSem ι B) i φ hx _).trans rfl⟩

theorem InStepOn.clusters (h : InStepOn D c ids s s') (hφ : φ (some c) = φ' (some c)) (hB : SameContent ids B B') (tc : TierConfig)
    {hosts hosts' : List Name} (hnames : ∀ n ∈ hosts, Plain n) (hnames' : ∀ n ∈ hosts', Plain n)
    (hhosts : hosts.filter (fun n => decide (n = c)) = hosts'.filter fun n => decide (n = c)) :
    InStepOn D c ids (hosts.foldl (clusterRound D K P W B φ i tc) s) (hosts'.foldl (clusterRound D K P W B' φ' i tc) s') := by
  refine foldl_twice (P := Plain) (J := InStepOn D c ids) ?_ ?_ ?_ hosts hosts' s s' hnames hnames' hhosts h
  · intro n x x' hplain hother hx
    have hne : n ≠ c := of_decide_eq_false hother
    have hparty : some n ≠ some c := fun heq => hne (Option.some.inj heq)
    exact (hx.others hparty (sweepCluster_spares K P W hne tc)).others hparty (applyWALRetention_spares hplain hne tc)
  · intro n x x' hplain hother hx
    have hne : n ≠ c := of_decide_eq_false hother
    have hparty : some n ≠ some c := fun heq => hne (Option.some.inj heq)
    exact (hx.others' hparty (sweepCluster_spares K P W hne tc)).others' hparty (applyWALRetention_spares hplain hne tc)
  · intro n x x' hplain hmine hx
    obtain rfl : n = c := of_decide_eq_true hmine
    exact (hx.mine hφ hB (sweepCluster_twin hplain K P W tc)).mine hφ hB (applyWALRetention_twin hplain tc)

/-! ### Tiers -/

def listedState (tier : Tier) (tags : List (Name × Name)) (s : Played ι) : Played ι :=
  (s.1, Function.update s.2 none (s.2 none ++ [.listSnapshots tier tags]))

theorem exec_listing (hlist : ListingsSucceed φ) (tier : Tier) (tags : List (Name × Name)) (done : List RepoOp) (s : Repos ι) :
    Repos.exec B i (.listSnapshots tier tags) (φ none done (.listSnapshots tier tags)) s =
      ((.ok ((s.snapshots tier).filter fun m => m.matches tags) : Except Err (List Manifest)), s) := by
  have hnone := hlist done tier tags
  simp only [Repos.exec, hnone]
  rfl

theorem played_listing (hlist : ListingsSucceed φ) (tier : Tier) (tags : List (Name × Name)) (f : Err → Err) (s : Played ι) :
    (((listSnapshots tier tags).mapErr f).mark none).played (repoSem ι B) i φ s =
      (.ok ((s.1.snapshots tier).filter fun m => m.matches tags), listedState tier tags s) := by
  have hexec := exec_listing (B := B) (i := i) hlist tier tags (s.2 none) s.1
  simp only [Prog.played, listSnapshots, Prog.mapErr, Prog.attempt, Prog.call_bind, Prog.mark, Prog.eval, markedSem, repoSem, hexec]
  rfl

theorem played_hostnames (hlist : ListingsSucceed φ) (tc : TierConfig) (s : Played ι) :
    (((listClusterHostnames tc.tier).mapErr (.wrap "while listing %s clusters: %w" [tc.name])).mark none).played (repoSem ι B) i φ s =
      (.ok (groupHostnames ((s.1.snapshots tc.tier).filter fun m => m.matches [(backupContentTagName, metadataContent)])),
        listedState tc.tier [(backupContentTagName, metadataContent)] s) := by
  have hexec := exec_listing (B := B) (i := i) hlist tc.tier [(backupContentTagName, metadataContent)] (s.2 none) s.1
  simp only [Prog.played, listClusterHostnames, listSnapshots, Prog.mapErr, Prog.attempt, Prog.call_bind, Prog.mark, Prog.eval, markedSem,
    repoSem, hexec]
  rfl

theorem InStepOn.listed (h : InStepOn D c ids s s') (tier : Tier) (tags : List (Name × Name)) :
    InStepOn D c ids (listedState tier tags s) (listedState tier tags s') := by
  refine ⟨h.agree, h.sorted, h.sorted', ?_⟩
  unfold listedState
  simp only [ne_eq, reduceCtorEq, not_false_eq_true, update_of_ne]
  exact h.done

theorem InStepOn.sameListing (h : InStepOn D c ids s s') (tier : Tier) (p : Manifest → Bool) :
    ((s.1.snapshots tier).filter p).filter (ofCluster c) = ((s'.1.snapshots tier).filter p).filter (ofCluster c) := by
  rw [filter_comm, h.agree.snapshots tier, filter_comm]

theorem refresh_inStep (h : InStepOn D c ids s s') (tier : Tier) {α : Type} (b : Bool) (k : Except Err Unit → PartyProg α) (a : α)
    (hk : ∀ r, ∃ x, k r = .ret x) : InStepOn D c ids
      (((if b then .call (none, .refreshServer tier) k else .ret a : PartyProg α).played (repoSem ι B) i φ s).2) s' := by
  rcases b with _ | _
  · exact h
  have hstate : ((Prog.call (none, RepoOp.refreshServer tier) k : PartyProg α).played (repoSem ι B) i φ s).2 =
      (s.1, update s.2 none (s.2 none ++ [.refreshServer tier])) := by
    obtain ⟨x, hx⟩ := hk (Repos.exec B i (.refreshServer tier) (φ none (s.2 none) (.refreshServer tier)) s.1).1
    show ((k (Repos.exec B i (.refreshServer tier) (φ none (s.2 none) (.refreshServer tier)) s.1).1).eval _ i _ _).2 = _
    rw [hx]
    rfl
  rw [if_pos rfl, hstate]
  refine ⟨h.agree, h.sorted, h.sorted', ?_⟩
  exact h.done

/-- **A sweep of a tier keeps the runs in step.** -/
theorem InStepOn.tier (h : InStepOn D c ids s s') (hφ : φ (some c) = φ' (some c)) (hB : SameContent ids B B') (hlist : ListingsSucceed φ)
    (hlist' : ListingsSucceed φ') (tc : TierConfig) :
    InStepOn D c ids ((sweepTierFor D K P W tc).played (repoSem ι B) i φ s).2
      ((sweepTierFor D K P W tc).played (repoSem ι B') i φ' s').2 := by
  have hplain : ∀ {s : Played ι}, Sorted D c ids s.1 → ∀ n ∈ groupHostnames ((s.1.snapshots tc.tier).filter
      fun m => m.matches [(backupContentTagName, metadataContent)]), Plain n := by
    intro s hs n hn
    obtain ⟨m, hm, rfl⟩ := ((groupHostnames_spec _).2 n).mp hn
    exact (hs.names tc.tier m (mem_filter.mp hm).1).plain
  obtain ⟨hmem, hhosts⟩ := hostnames_mine (h.sameListing tc.tier fun m => m.matches [(backupContentTagName, metadataContent)])
  have hclusters := (h.listed tc.tier [(backupContentTagName, metadataContent)]).clusters (K := K) (P := P) (W := W) (i := i) hφ hB tc
    (hplain h.sorted) (hplain h.sorted') hhosts
  unfold sweepTierFor
  rw [played_bind_ok _ _ _ (played_hostnames hlist tc s), played_bind_ok _ _ _ (played_hostnames hlist' tc s')]
  obtain ⟨x, hx⟩ := played_sweepClustersFor (D := D) (K := K) (P := P) (W := W) (B := B) (φ := φ) (i := i) tc (groupHostnames
    ((s.1.snapshots tc.tier).filter fun m => m.matches [(backupContentTagName, metadataContent)]))
    (listedState tc.tier [(backupContentTagName, metadataContent)] s)
  obtain ⟨x', hx'⟩ := played_sweepClustersFor (D := D) (K := K) (P := P) (W := W) (B := B') (φ := φ') (i := i) tc (groupHostnames
    ((s'.1.snapshots tc.tier).filter fun m => m.matches [(backupContentTagName, metadataContent)]))
    (listedState tc.tier [(backupContentTagName, metadataContent)] s')
  rw [played_bind_ok _ _ _ hx, played_bind_ok _ _ _ hx', played_attempt_bind, played_attempt_bind]
  -- the orphans of the cluster are the same, and so are their deletions
  have horphans := orphans_congr hmem (hclusters.sameListing tc.tier fun m => m.matches [])
  have hdeleted := (hclusters.listed tc.tier []).deletions (W := W) (i := i) hφ hB tc.tier horphans
  have hstate : ∀ (B : Backups) (φ : Faults) (_ : ListingsSucceed φ) (hosts : List Name) (s : Played ι),
      ((sweepOrphansFor W tc hosts).played (repoSem ι B) i φ s).2 =
        (orphanBackupNames ((s.1.snapshots tc.tier).filter fun m => m.matches []) hosts).foldl (deleteRound B φ i W tc.tier)
          (listedState tc.tier [] s) := by
    intro B φ hlist hosts s
    unfold sweepOrphansFor
    rw [played_bind_ok _ _ _ (played_listing hlist tc.tier [] _ s)]
    obtain ⟨y, hy⟩ := played_deleteBackupsFor (W := W) (B := B) (φ := φ) (i := i) tc.tier
      (orphanBackupNames ((s.1.snapshots tc.tier).filter fun m => m.matches []) hosts) (listedState tc.tier [] s)
    rw [hy]
  rw [hstate B φ hlist, hstate B' φ' hlist']
  refine refresh_inStep (InStepOn.symm (refresh_inStep hdeleted.symm tc.tier _ _ _ ?_)) tc.tier _ _ _ ?_
  · intro r
    exact ⟨_, rfl⟩
  · intro r
    exact ⟨_, rfl⟩

def idsOf (c : Name) (s : Repos ι) (tier : Tier) (id : Name) : Prop := ∃ m ∈ (s.snapshots tier).filter (ofCluster c), m.id = id

theorem sorted_of_distinct {s : Repos ι} (hids : ∀ tier, DistinctIds s tier) (hnames : ∀ tier, ∀ m ∈ s.snapshots tier, ClusterName D m.source.host)
    {s₀ : Repos ι} (h : ∀ tier, (s₀.snapshots tier).filter (ofCluster c) = (s.snapshots tier).filter (ofCluster c)) :
    Sorted D c (idsOf c s₀) s := by
  refine ⟨fun tier m hm => ⟨?_, ?_⟩, hnames⟩
  · rintro ⟨m', hm', heq⟩
    rw [h] at hm'
    obtain ⟨hmem, hmine⟩ := mem_filter.mp hm'
    obtain rfl := (hids tier).eq hmem hm heq
    exact of_decide_eq_true hmine
  · intro hhost
    exact ⟨m, by rw [h]; exact mem_filter.mpr ⟨hm, decide_eq_true hhost⟩, rfl⟩

/-- The state after a sweep under a failure pattern. -/
def sweptUnder (D : Deps) (K : Codec) (P : Outside) (W : SweepDeps) (B : Backups) (φ : Faults) (i : ι) (sw : Sweeper) (s : Repos ι) : Repos ι :=
  ((sw.sweepFor D K P W).played (repoSem ι B) i φ (s, fun _ => [])).2.1

end Runs

/-- One backup of the cluster `host`. -/
def backupOf (host : String) : Manifest :=
  { id := host.toList, source := ⟨host.toList, "u".toList, "/".toList⟩, startTime := 1,
    tags := [("tag:klio.io/tag".toList, "b".toList), ("tag:klio.io/content".toList, metadataContent)] }

/-- Backups of these clusters on tier 1. -/
def backupsOf (hosts : List String) : Repos Unit where
  snapshots tier := if tier = .tier1 then hosts.map backupOf else []
  wal _ := Fs.empty

/-- What is done for this cluster fails. -/
def failsFor (host : Name) : Faults := fun party _ _ => if party = some host then some (.kopia true) else none

end Klio
