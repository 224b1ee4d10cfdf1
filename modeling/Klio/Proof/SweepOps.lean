import Klio.Model.Consumer

/-!
# The operations of a sweep

Besides applying WAL retention, a sweep of a tier only asks queries and deletes snapshots of that
tier (`SweepsTier`). So a protocol that allows these is kept by the whole sweep as soon as
`applyWALRetention` keeps it (`sweepTier_sat`, `sweep_sat`).
-/

namespace Klio

open Lib Prog Repos

/-- Operations that change no repository. -/
def IsQuery : RepoOp → Prop
  | .listSnapshots _ _ | .restoreMetadata _ _ | .refreshServer _ | .wal _ (.readFile _) => True
  | _ => False

/-- What a sweep of a tier does besides WAL retention. -/
def SweepsTier (tier : Tier) : RepoOp → Prop
  | .deleteSnapshot tier' _ => tier' = tier
  | o => IsQuery o

theorem IsQuery.sweeps {tier : Tier} {o : RepoOp} (h : IsQuery o) : SweepsTier tier o := by
  cases o <;> first | exact h | exact h.elim

variable {tier : Tier}

theorem listSnapshots_uses (tags : List (Name × Name)) : (listSnapshots tier tags).Uses IsQuery :=
  ⟨trivial, fun r => uses_orErr id r⟩

theorem restoreEntries_uses (hostname : Name) (es : List Manifest) : (restoreEntries tier hostname es).Uses IsQuery := by
  induction es with
  | nil => trivial
  | cons e es ih =>
    unfold restoreEntries
    split
    · exact ih
    · refine ⟨trivial, fun (r : Except Err BackupMetadata) => ?_⟩
      cases r with
      | error e => exact ih
      | ok b => exact uses_map ih

theorem listBackups_uses (tier : Tier) (hostname : Name) : (listBackups tier hostname).Uses IsQuery :=
  uses_bind (restoreEntries_uses hostname) (uses_mapErr (listSnapshots_uses _))

theorem deleteSnapshots_uses (es : List Manifest) : (deleteSnapshots tier es).Uses (SweepsTier tier) := by
  induction es with
  | nil => trivial
  | cons e es ih => exact ⟨rfl, fun _ => uses_map ih⟩

theorem deleteBackupSnapshots_uses (hostname name : Name) (n : ℕ) :
    (deleteBackupSnapshots tier hostname name n).Uses (SweepsTier tier) := by
  induction n with
  | zero => trivial
  | succ n ih =>
    refine uses_bind (fun entries => ?_) (uses_mono (fun _ => IsQuery.sweeps) (uses_mapErr (listSnapshots_uses _)))
    simp only
    split
    · trivial
    · refine uses_bind (fun errs => ?_) (deleteSnapshots_uses _)
      split
      · trivial
      · exact ih

theorem deleteBackups_uses (W : SweepDeps) (ts : List HostBackupName) : (deleteBackups W tier ts).Uses (SweepsTier tier) := by
  induction ts with
  | nil => trivial
  | cons t ts ih =>
    refine uses_bind (fun out => ?_) (uses_attempt (deleteBackupSnapshots_uses _ _ _))
    exact uses_map ih

theorem uses_onWAL {P : RepoOp → Prop} {α : Type} {p : FsProg Msg α} (hp : p.Uses fun o => P (.wal tier o)) :
    (onWAL tier p).Uses P := by
  induction p with
  | ret a => trivial
  | err e => trivial
  | call o k ih => exact ⟨hp.1, fun r => ih r (hp.2 r)⟩

section Reads

variable {K : Codec} {clusterName : Name} {L : FsOp Name UInt8 Msg → Prop}

theorem newReader_uses {walName : Name} (hL : L (.readFile (getWALArchivePath clusterName walName))) :
    (newReader K clusterName walName).Uses L := by
  refine ⟨hL, fun (r : Except FsErr (List UInt8)) => ?_⟩
  rcases r with e | data
  · cases e <;> trivial
  dsimp only
  split <;> trivial

theorem getClusterRetentionPolicy_uses {P : Outside}
    (hL : L (.readFile (getWALArchivePath clusterName retentionPolicyFileName))) :
    (getClusterRetentionPolicy K P clusterName).Uses L := by
  refine uses_bind (fun out => ?_) (uses_attempt (newReader_uses hL))
  rcases out with e | walReader
  · dsimp only; split <;> trivial
  dsimp only
  split
  · split <;> trivial
  · split <;> trivial

end Reads

theorem protectUnsyncedToTier2_uses (clusterName : Name) (candidates : List BackupMetadata) (client : Tier) :
    (protectUnsyncedToTier2 clusterName candidates client).Uses IsQuery :=
  uses_map (uses_mapErr (listBackups_uses _ clusterName))

theorem deletionCandidates_uses (W : SweepDeps) (clusterName : Name) (tc : TierConfig) (policy : RetentionPolicy)
    (evaluator : LatestPolicy) (backups : List BackupMetadata) :
    (deletionCandidates W clusterName tc policy evaluator backups).Uses IsQuery := by
  unfold deletionCandidates
  split
  · exact uses_mapErr (protectUnsyncedToTier2_uses _ _ _)
  · trivial

theorem sweepCluster_uses (K : Codec) (P : Outside) (W : SweepDeps) (clusterName : Name) (tc : TierConfig) :
    (sweepCluster K P W clusterName tc).Uses (SweepsTier tc.tier) := by
  have hquery : ∀ {α : Type} {p : RepoProg α}, p.Uses IsQuery → p.Uses (SweepsTier tc.tier) :=
    fun hp => uses_mono (fun _ => IsQuery.sweeps) hp
  refine uses_bind (fun policy => ?_) (hquery (uses_mapErr (uses_onWAL (getClusterRetentionPolicy_uses trivial))))
  split
  · trivial
  split
  · trivial
  refine uses_bind (fun backups => ?_) (hquery (uses_mapErr (listBackups_uses _ clusterName)))
  split
  · trivial
  exact uses_bind (fun toDelete => deleteBackups_uses W _) (hquery (deletionCandidates_uses W _ _ _ _ _))

theorem sweepOrphans_uses (W : SweepDeps) (tc : TierConfig) (hostnames : List Name) :
    (sweepOrphans W tc hostnames).Uses (SweepsTier tc.tier) :=
  uses_bind (fun _ => deleteBackups_uses W _) (uses_mono (fun _ => IsQuery.sweeps) (uses_mapErr (listSnapshots_uses _)))

theorem listClusterHostnames_uses (tier : Tier) : (listClusterHostnames tier).Uses IsQuery :=
  uses_map (uses_mapErr (listSnapshots_uses _))

theorem applyWALRetention_uses (D : Deps) (clusterName : Name) (tc : TierConfig) :
    (applyWALRetention D clusterName tc).Uses fun o => IsQuery o ∨ ∃ o', o = .wal tc.tier o' := by
  unfold applyWALRetention
  split
  · trivial
  refine uses_bind (fun backups => ?_) (uses_mono (fun _ => .inl) (uses_mapErr (listBackups_uses _ clusterName)))
  unfold retainWALOf
  split
  · trivial
  split
  · trivial
  split
  · trivial
  · exact uses_onWAL (uses_mono (fun o _ => .inr ⟨o, rfl⟩) (uses_any _))

/-! ## Operations and snapshots -/

section Snapshots

variable {ι : Type} (B : Backups) (i : ι) (o : RepoOp) (c : Option Fault) (s : Repos ι)

theorem snapshots_exec : (∃ tier id, o = .deleteSnapshot tier id) ∨ (∃ m, o = .migrateSnapshot m) ∨
    (exec B i o c s).2.snapshots = s.snapshots ∧ (exec B i o c s).2.migrated = s.migrated := by
  cases o with
  | deleteSnapshot tier id => exact .inl ⟨tier, id, rfl⟩
  | migrateSnapshot m => exact .inr (.inl ⟨m, rfl⟩)
  | _ => exact .inr (.inr ⟨rfl, rfl⟩)

theorem exec_delete (tier : Tier) (id : Name) :
    (exec B i (.deleteSnapshot tier id) c s).2 = s.delete tier id ∨
      (exec B i (.deleteSnapshot tier id) c s).2 = s := by
  simp only [exec]
  split
  · split
    · exact .inr rfl
    · exact .inl rfl
  · split
    · exact .inl rfl
    · exact .inr rfl

theorem exec_migrate (m : Manifest) :
    m ∈ s.snapshots .tier1 ∧
        exec B i (.migrateSnapshot m) c s = ((.ok () : Except Err Unit), s.migrate m) ∨
      exec B i (.migrateSnapshot m) c s = ((.error kopiaFailed : Except Err Unit), s) := by
  simp only [exec]
  split
  · exact .inr rfl
  · rename_i h
    exact .inl ⟨not_not.1 (not_or.1 h).2, rfl⟩

variable {s}

theorem mem_delete {t tier : Tier} {id : Name} {m : Manifest} :
    m ∈ (s.delete tier id).snapshots t ↔ m ∈ s.snapshots t ∧ ¬ (t = tier ∧ m.id = id) := by
  unfold delete setSnapshots
  by_cases ht : t = tier
  · subst ht
    simp
  · simp [ht]

theorem mem_migrate {t : Tier} {m m' : Manifest} :
    m' ∈ (s.migrate m).snapshots t ↔ m' ∈ s.snapshots t ∨ t = .tier2 ∧ m' = m := by
  unfold migrate setSnapshots
  by_cases ht : t = .tier2
  · subst ht
    simp only [Function.update_self, true_and]
    split
    · rename_i hmem
      exact ⟨.inl, fun h => h.elim id fun h => h ▸ hmem⟩
    · simp
  · simp [ht]

variable {B i o c}

/-- **Where a snapshot comes from**: it was there, or it was copied from tier 1. -/
theorem mem_of_mem_exec {t : Tier} {m : Manifest} (h : m ∈ (exec B i o c s).2.snapshots t) :
    m ∈ s.snapshots t ∨ t = .tier2 ∧ o = .migrateSnapshot m ∧ m ∈ s.snapshots .tier1 := by
  rcases snapshots_exec B i o c s with ⟨tier, id, rfl⟩ | ⟨m', rfl⟩ | ⟨hsame, -⟩
  · rcases exec_delete B i c s tier id with heq | heq
    · rw [heq] at h
      exact .inl (mem_delete.1 h).1
    · rw [heq] at h
      exact .inl h
  · rcases exec_migrate B i c s m' with ⟨hm', heq⟩ | heq
    · rw [heq] at h
      rcases mem_migrate.1 h with h | ⟨ht, rfl⟩
      · exact .inl h
      · exact .inr ⟨ht, rfl, hm'⟩
    · rw [heq] at h
      exact .inl h
  · rw [hsame] at h
    exact .inl h

/-- **Where a snapshot goes**: it stays, unless it is deleted. -/
theorem mem_exec_of_mem {t : Tier} {m : Manifest} (h : m ∈ s.snapshots t) :
    m ∈ (exec B i o c s).2.snapshots t ∨ o = .deleteSnapshot t m.id := by
  rcases snapshots_exec B i o c s with ⟨tier, id, rfl⟩ | ⟨m', rfl⟩ | ⟨hsame, -⟩
  · rcases exec_delete B i c s tier id with heq | heq
    · rw [heq]
      by_cases hd : t = tier ∧ m.id = id
      · exact .inr (by rw [hd.1, hd.2])
      · exact .inl (mem_delete.2 ⟨h, hd⟩)
    · rw [heq]
      exact .inl h
  · rcases exec_migrate B i c s m' with ⟨-, heq⟩ | heq
    · rw [heq]
      exact .inl (mem_migrate.2 (.inl h))
    · rw [heq]
      exact .inl h
  · rw [hsame]
    exact .inl h

end Snapshots

/-! ## Protocols that sweeps keep -/

section Sat

variable {Ph : Type} {T : Proto RepoOp RepoOp.Res Ph} {D : Deps} (K : Codec) (P : Outside) (W : SweepDeps)
  {tc : TierConfig}

theorem sweepClusters_sat (hT : ∀ ph o, SweepsTier tc.tier o → T.allowed ph o)
    (hwal : ∀ c ph, (applyWALRetention D c tc).Sat T (fun _ _ => True) (fun _ _ => True) ph) (hostnames : List Name) (ph : Ph) :
    (sweepClusters D K P W tc hostnames).Sat T (fun _ _ => True) (fun _ _ => True) ph := by
  induction hostnames generalizing ph with
  | nil => trivial
  | cons h hs ih =>
    have hcluster := (uses_attempt (sweepCluster_uses K P W h tc)).sat hT ph
    refine sat_bind hcluster fun _ ph₁ _ => ?_
    have hretain : (applyWALRetention D h tc).attempt.Sat T (fun _ _ => True) (fun _ _ => True) ph₁ :=
      sat_attempt (hwal h ph₁)
    refine sat_bind hretain fun _ ph₂ _ => ?_
    exact sat_bind (ih ph₂) fun _ _ _ => trivial

/-- **A sweep of a tier keeps what its WAL retention keeps.** -/
theorem sweepTier_sat (hT : ∀ ph o, SweepsTier tc.tier o → T.allowed ph o)
    (hwal : ∀ c ph, (applyWALRetention D c tc).Sat T (fun _ _ => True) (fun _ _ => True) ph) (ph : Ph) :
    (sweepTier D K P W tc).Sat T (fun _ _ => True) (fun _ _ => True) ph := by
  have hhosts := (uses_mapErr (f := .wrap "while listing %s clusters: %w" [tc.name])
    (listClusterHostnames_uses tc.tier)).sat (fun ph o ho => hT ph o ho.sweeps) ph
  refine sat_bind hhosts fun hostnames ph₁ _ => ?_
  refine sat_bind (sweepClusters_sat K P W hT hwal hostnames ph₁) fun clusters ph₂ _ => ?_
  have horphans := (uses_attempt (sweepOrphans_uses W tc hostnames)).sat hT ph₂
  refine sat_bind horphans fun orphans ph₃ _ => ?_
  show Prog.Sat T _ _ (if _ then _ else _) ph₃
  split
  · exact ⟨hT _ _ trivial, fun _ => trivial⟩
  · trivial

theorem sweepTier_uses (D : Deps) (K : Codec) (P : Outside) (W : SweepDeps) (tc : TierConfig) :
    (sweepTier D K P W tc).Uses fun o => SweepsTier tc.tier o ∨ ∃ o', o = .wal tc.tier o' := by
  let T : Proto RepoOp RepoOp.Res Unit := ⟨fun _ o => SweepsTier tc.tier o ∨ ∃ o', o = .wal tc.tier o', fun ph _ _ => ph⟩
  refine (sweepTier_sat (T := T) (D := D) K P W (fun _ _ => .inl) ?_ ()).uses fun _ _ h => h
  intro c ph
  exact (applyWALRetention_uses D c tc).sat (fun _ o ho => ho.imp_left IsQuery.sweeps) ph

/-- **A whole sweep keeps what WAL retention keeps on both tiers.** -/
theorem sweep_sat (s : Sweeper) (hT : ∀ t ph o, SweepsTier t o → T.allowed ph o)
    (hwal : ∀ c tc ph, (applyWALRetention D c tc).Sat T (fun _ _ => True) (fun _ _ => True) ph) (ph : Ph) :
    (s.sweep D K P W).Sat T (fun _ _ => True) (fun _ _ => True) ph := by
  have hfirst : (sweepTier D K P W s.tier1Config).attempt.Sat T (fun _ _ => True) (fun _ _ => True) ph :=
    sat_attempt (sweepTier_sat K P W (hT _) (fun c => hwal c _) ph)
  refine sat_bind hfirst fun out₁ ph₁ _ => ?_
  split
  · have hsecond : (sweepTier D K P W tier2Config).attempt.Sat T (fun _ _ => True) (fun _ _ => True) ph₁ :=
      sat_attempt (sweepTier_sat K P W (hT _) (fun c => hwal c _) ph₁)
    exact sat_bind hsecond fun _ _ _ => trivial
  · trivial

end Sat

end Klio
