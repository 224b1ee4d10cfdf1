import Klio.Proof.SyncGuard

/-!
# A relay among sweeps of tier 2

`MigrateSnapshots` copies the snapshots of a cluster one by one, while sweeps of tier 2 delete what is
out of retention and what looks abandoned. The content of a backup whose metadata is still to be
copied looks abandoned as soon as tier 2 has a newer backup.

* `relayContract`: what the relay itself does. It copies each snapshot of the cluster once, and at the
  end it has copied all.
* `Undisturbed`: no sweep deletes content that the relay has copied, unless the whole backup is gone
  for good.
* `relayed_backups_complete`: then the backups on tier 2 are complete after the relay.
-/

namespace Klio

open Lib Prog Contract List

variable {ι : Type}

/-! ## What the relay does -/

/-- **The contract of a relay.** Others leave tier 1 alone and migrate nothing; it deletes nothing and
migrates no snapshot twice. -/
def relayContract : Contract RepoOp (Repos ι) where
  rely s s' := s'.snapshots .tier1 = s.snapshots .tier1 ∧ s'.migrated = s.migrated
  assume _ _ := True
  ensure o s := match o with
    | .migrateSnapshot m => m ∉ s.migrated
    | .deleteSnapshot _ _ => False
    | _ => True

structure Migrated (tier1 ms : List Manifest) (s : Repos ι) : Prop where
  tier1 : s.snapshots .tier1 = tier1
  migrated : s.migrated = ms

section Parts

variable {B : Backups} {tier1 ms : List Manifest} {s s' : Repos ι} {i : ι}

theorem Migrated.rely (h : Migrated tier1 ms s) (hr : relayContract.rely s s') : Migrated tier1 ms s' :=
  ⟨hr.1.trans h.tier1, hr.2.trans h.migrated⟩

theorem other_meets {α : Type} {p : RepoProg α} (hs : Migrated tier1 ms s) (hp : p.Uses RelayAsks) :
    relayContract.Meets (repoSem ι B) i (fun _ => Migrated tier1 ms) (fun _ _ => True) p s := by
  refine meets_mono (fun _ _ h => h) (fun _ _ _ => trivial) (meets_uses (P := RelayAsks) ?_ (fun _ _ h hr => h.rely hr) ?_ hp hs)
  · intro o s ho
    cases o with
    | migrateSnapshot m => exact ho.elim
    | deleteSnapshot tier id => exact ho.elim
    | _ => trivial
  · intro o c s ho h
    rcases snapshots_exec B i o c s with ⟨tier, id, rfl⟩ | ⟨m, rfl⟩ | ⟨hsame, hmig⟩
    · exact ho.elim
    · exact ho.elim
    · exact ⟨by rw [← h.tier1, ← hsame]; rfl, by rw [← h.migrated, ← hmig]; rfl⟩

theorem listTier1_meets (hs : Migrated tier1 ms s) {text : String} {args : List Name} :
    relayContract.Meets (repoSem ι B) i (fun es s => es = tier1 ∧ Migrated tier1 ms s) (fun _ _ => True)
      ((listSnapshots .tier1 []).mapErr (.wrap text args)) s := by
  refine meets_mapErr (F := fun _ => True) ?_
  intro s' hr _
  have hs' := hs.rely hr
  refine ⟨trivial, fun c => ?_⟩
  have hall : (s'.snapshots .tier1).filter (fun m => m.matches []) = tier1 := by
    rw [hs'.tier1]
    exact filter_eq_self.2 fun _ _ => rfl
  rw [exec_listSnapshots]
  cases kopiaFault c with
  | none => exact ⟨hall, hs'⟩
  | some flag => trivial

/-- **The migration**: each snapshot once, and all of them. -/
theorem migrateEach_meets (todo : List Manifest) (hs : Migrated tier1 ms s) (hnd : (ms ++ todo).Nodup) :
    relayContract.Meets (repoSem ι B) i (fun _ => Migrated tier1 (ms ++ todo)) (fun _ _ => True) (migrateEach todo) s := by
  induction todo generalizing ms s with
  | nil => rw [append_nil]; exact hs
  | cons m todo ih =>
    intro s' hr _
    have hs' := hs.rely hr
    have hfresh : m ∉ ms := by
      rw [nodup_append] at hnd
      intro hm
      exact hnd.2.2 m hm m mem_cons_self rfl
    refine ⟨by show m ∉ s'.migrated; rw [hs'.migrated]; exact hfresh, fun c => ?_⟩
    have hstep : ∀ s₁ : Repos ι, Migrated tier1 (ms ++ [m]) s₁ →
        relayContract.Meets (repoSem ι B) i (fun _ => Migrated tier1 (ms ++ m :: todo)) (fun _ _ => True) (migrateEach todo) s₁ := by
      intro s₁ hs₁
      have happ : ms ++ m :: todo = (ms ++ [m]) ++ todo := by simp
      rw [happ] at hnd ⊢
      exact ih hs₁ hnd
    rcases exec_migrate B i c s' m with ⟨-, hexec⟩ | hexec
    · have hexec' : (repoSem ι B).exec i (.migrateSnapshot m) c s' = ((.ok () : Except Err Unit), s'.migrate m) := hexec
      rw [hexec']
      refine hstep _ ⟨?_, ?_⟩
      · rw [← hs'.tier1]
        rfl
      · rw [← hs'.migrated]
        rfl
    · have hexec' : (repoSem ι B).exec i (.migrateSnapshot m) c s' = ((.error kopiaFailed : Except Err Unit), s') := hexec
      rw [hexec']
      trivial

/-- **The relay** of a cluster: if it returns, everything tier 1 has of the cluster was migrated. -/
theorem processBackup_meets (V : RelayDeps) {task : BackupTask} (hsend : task.sendToTier2 = true) (hnd : tier1.Nodup)
    (hs : Migrated tier1 [] s) :
    relayContract.Meets (repoSem ι B) i
      (fun _ s => s.snapshots .tier1 = tier1 ∧ ∀ m ∈ tier1, m.source.host = task.clusterName → m ∈ s.migrated)
      (fun _ _ => True) (processBackup V true task) s := by
  refine meets_bind (Q := fun es s => es = tier1.filter (fun m => m.source.host = task.clusterName) ∧ Migrated tier1 [] s) ?_ ?_
  · refine meets_bind (listTier1_meets hs) ?_
    rintro es s₁ ⟨rfl, hs₁⟩
    exact ⟨rfl, hs₁⟩
  rintro entries s₁ ⟨rfl, hs₁⟩
  split
  · rename_i hempty
    refine ⟨hs₁.tier1, fun m hm hhost => ?_⟩
    have hmem : m ∈ tier1.filter fun m => m.source.host = task.clusterName := mem_filter.2 ⟨hm, decide_eq_true hhost⟩
    rw [hempty] at hmem
    exact absurd hmem not_mem_nil
  refine meets_bind (other_meets hs₁ verifyTier1_uses) fun _ s₂ hs₂ => ?_
  unfold relayToTier2IfRequested
  rw [if_neg (by simp), if_neg (by simp [hsend])]
  -- the sources of the cluster cover all its snapshots
  refine meets_bind (Q := fun _ s => s.snapshots .tier1 = tier1 ∧
    ∀ m ∈ tier1, m.source.host = task.clusterName → m ∈ s.migrated) ?_ fun _ s₅ hs₅ => ?_
  · refine meets_bind (other_meets hs₂ (setTier2Compression_uses task _)) fun _ s₃ hs₃ => ?_
    refine meets_bind (Q := fun _ s => ∃ done, Migrated tier1 done s ∧
      ∀ m ∈ tier1, m.source.host = task.clusterName → m ∈ done) ?_ ?_
    · refine meets_bind (listTier1_meets hs₃) ?_
      rintro es s₄ ⟨rfl, hs₄⟩
      have hperm := V.order_perm (es.filter fun m => m.source ∈
        (es.filter fun m => m.source.host = task.clusterName).map Manifest.source)
      refine meets_mono (fun _ s h => ⟨_, h, fun m hm hhost => ?_⟩) (fun _ _ _ => trivial) (migrateEach_meets _ hs₄ ?_)
      · rw [nil_append, hperm.nodup_iff]
        exact hnd.filter _
      · rw [nil_append, hperm.mem_iff, mem_filter]
        refine ⟨hm, decide_eq_true (mem_map.2 ⟨m, mem_filter.2 ⟨hm, decide_eq_true hhost⟩, rfl⟩)⟩
    · rintro _ s₄ ⟨done, hs₄, hall⟩
      refine meets_mono (fun _ s h => ⟨h.tier1, fun m hm hhost => ?_⟩) (fun _ _ _ => trivial)
        (other_meets hs₄ verifyTier2Backups_uses)
      rw [h.migrated]
      exact hall m hm hhost
  · -- refreshing the server changes nothing
    intro s' hr _
    refine ⟨trivial, fun c => ?_⟩
    have hst : ((repoSem ι B).exec i (.refreshServer .tier2) c s').2 = s' := rfl
    rw [hst]
    refine ⟨hr.1.trans hs₅.1, fun m hm hhost => ?_⟩
    rw [hr.2]
    exact hs₅.2 m hm hhost

end Parts

/-! ## What sweeps leave -/

/-- The backup is gone for good: tier 2 has no metadata of it, and what tier 1 has was migrated
before. -/
def GoneFor (tier1 : List Manifest) (s : Repos ι) (t : HostBackupName) : Prop :=
  (∀ m ∈ s.snapshots .tier2, m.IsMetadata → m.key ≠ t) ∧ ∀ m ∈ tier1, m.IsMetadata → m.key = t → m ∈ s.migrated

structure ContentOf (tier1 : List Manifest) (cluster : Name) (m : Manifest) : Prop where
  mem : m ∈ tier1
  host : m.source.host = cluster
  content : ¬ m.IsMetadata

/-- The content that was migrated is on tier 2, or its backup is gone. -/
def Holds (tier1 : List Manifest) (cluster : Name) (s : Repos ι) : Prop :=
  ∀ m, ContentOf tier1 cluster m → m ∈ s.migrated → m ∈ s.snapshots .tier2 ∨ GoneFor tier1 s m.key

/-- The condition on a step: a deletion from tier 2 spares the content of the cluster that was migrated
before, unless its backup is gone. -/
def Undisturbed (tier1 : List Manifest) (cluster : Name) (s : RepoSys ι) : Ev ι (Option Fault) (Tier → ℕ → ℕ) → Prop
  | .step j _ => ∀ id k, s.procs j = .call (.deleteSnapshot .tier2 id) k → ∀ m ∈ s.st.snapshots .tier2, m.id = id →
      ContentOf tier1 cluster m → m ∉ s.st.migrated ∨ GoneFor tier1 s.st m.key
  | .crash _ => False

section Steps

variable {B : Backups} {tier1 : List Manifest} {cluster : Name} {s : Repos ι} {i : ι} {c : Option Fault}

theorem Holds.of_same {s' : Repos ι} (h : Holds tier1 cluster s) (hsnap : s'.snapshots = s.snapshots)
    (hmig : s'.migrated = s.migrated) : Holds tier1 cluster s' := by
  intro m hm hmem
  rw [hmig] at hmem
  have hcase := h m hm hmem
  unfold GoneFor at hcase ⊢
  rw [hsnap, hmig]
  exact hcase

/-- **A deletion** that spares what was migrated. -/
theorem Holds.delete (h : Holds tier1 cluster s) {id : Name}
    (hspare : ∀ m ∈ s.snapshots .tier2, m.id = id → ContentOf tier1 cluster m → m ∉ s.migrated ∨ GoneFor tier1 s m.key) :
    Holds tier1 cluster (Repos.exec B i (.deleteSnapshot .tier2 id) c s).2 := by
  rcases exec_delete B i c s .tier2 id with heq | heq
  · rw [heq]
    intro m hm hmem
    -- a backup that is gone stays so
    have hgone : GoneFor tier1 s m.key → GoneFor tier1 (s.delete .tier2 id) m.key :=
      fun hg => ⟨fun m' hm' => hg.1 m' (mem_delete.1 hm').1, hg.2⟩
    rcases h m hm hmem with hthere | hg
    · by_cases hid : m.id = id
      · rcases hspare m hthere hid hm with hno | hg
        · exact absurd hmem hno
        · exact .inr (hgone hg)
      · exact .inl (mem_delete.2 ⟨hthere, fun h => hid h.2⟩)
    · exact .inr (hgone hg)
  · rw [heq]
    exact h

/-- **A migration** of a snapshot that was not migrated before. -/
theorem Holds.migrate (h : Holds tier1 cluster s) {m : Manifest} (hfresh : m ∉ s.migrated)
    (htier1 : s.snapshots .tier1 = tier1) : Holds tier1 cluster (Repos.exec B i (.migrateSnapshot m) c s).2 := by
  rcases exec_migrate B i c s m with ⟨hmem1, heq⟩ | heq
  · rw [heq]
    intro m' hm' hmem
    have hmem' : m' ∈ s.migrated ++ [m] := hmem
    rcases mem_append.1 hmem' with hold | hnew
    · rcases h m' hm' hold with hthere | hg
      · exact .inl (mem_migrate.2 (.inl hthere))
      -- the metadata of a backup that is gone was migrated before, so this is none of it
      refine .inr ⟨fun x hx hmeta hkey => ?_, fun x hx hmeta hkey => mem_append_left _ (hg.2 x hx hmeta hkey)⟩
      rcases mem_migrate.1 hx with hx | ⟨-, rfl⟩
      · exact hg.1 x hx hmeta hkey
      · exact hfresh (hg.2 x (htier1 ▸ hmem1) hmeta hkey)
    · exact .inl (mem_migrate.2 (.inr ⟨rfl, mem_singleton.1 hnew⟩))
  · rw [heq]
    exact h

end Steps

/-! ## The relay among sweeps -/

section Main

variable {κ : Type} [DecidableEq κ]

def relaySys (D : Deps) (K : Codec) (P : Outside) (W : SweepDeps) (V : RelayDeps) (task : BackupTask)
    (snapshots : Tier → List Manifest) (wal : Tier → Fs Name UInt8) : RepoSys (Option κ) :=
  Sys.init { snapshots := snapshots, wal := wal } fun
    | none => processBackup V true task
    | some _ => (sweepTier D K P W tier2Config).bind fun _ => .ret ()

def SweepsTier2 (o : RepoOp) : Prop := SweepsTier .tier2 o ∨ ∃ o', o = .wal .tier2 o'

theorem sweepsTier2_cases {o : RepoOp} (h : SweepsTier2 o) (B : Backups) (i : ι) (c : Option Fault) (s : Repos ι) :
    (∃ id, o = .deleteSnapshot .tier2 id) ∨
      (Repos.exec B i o c s).2.snapshots = s.snapshots ∧ (Repos.exec B i o c s).2.migrated = s.migrated := by
  rcases snapshots_exec B i o c s with ⟨tier, id, rfl⟩ | ⟨m, rfl⟩ | hsame
  · rcases h with rfl | ⟨o', h⟩
    · exact .inl ⟨id, rfl⟩
    · cases h
  · rcases h with h | ⟨o', h⟩
    · exact h.elim
    · cases h
  · exact .inr hsame

theorem relay_rely {B : Backups} (s₀ s : Repos ι) (j : ι) (o : RepoOp) (c : Option Fault)
    (hr : relayContract.rely s₀ s) (ho : SweepsTier2 o) : relayContract.rely s₀ ((repoSem ι B).exec j o c s).2 := by
  rcases sweepsTier2_cases ho B j c s with ⟨id, rfl⟩ | ⟨hsnap, hmig⟩
  · have hsame : ∀ s' : Repos ι, s' = s.delete .tier2 id ∨ s' = s → relayContract.rely s₀ s' := by
      rintro s' (rfl | rfl)
      · exact hr
      · exact hr
    exact hsame _ (exec_delete B j c s .tier2 id)
  · exact ⟨by rw [← hr.1, ← hsnap]; rfl, by rw [← hr.2, ← hmig]; rfl⟩

/-- What the relay has achieved when it returns. -/
def AllMigrated (tier1 : List Manifest) (cluster : Name) (s : Repos ι) : Prop :=
  s.snapshots .tier1 = tier1 ∧ ∀ m ∈ tier1, m.source.host = cluster → m ∈ s.migrated

/-- What holds all along. -/
structure RelayInv (B : Backups) (tier1 : List Manifest) (cluster : Name) (s : RepoSys (Option κ)) : Prop where
  keeps : Keeps relayContract (repoSem (Option κ) B) none SweepsTier2 (fun _ => AllMigrated tier1 cluster) (fun _ _ => True) s
  same : s.st.snapshots .tier1 = tier1
  holds : Holds tier1 cluster s.st

/-- **One step keeps the invariant**, if it meets the condition. -/
theorem relayInv_step {B : Backups} {tier1 : List Manifest} {cluster : Name} {s : RepoSys (Option κ)} {j : Option κ}
    {c : Option Fault} (h : RelayInv B tier1 cluster s) (hg : Undisturbed tier1 cluster s (.step j c)) :
    RelayInv B tier1 cluster (s.stepProc (repoSem (Option κ) B) j c) := by
  obtain ⟨hk, ht1, hh⟩ := h
  have hrefl : ∀ s : Repos (Option κ), relayContract.rely s s := fun s => ⟨rfl, rfl⟩
  have hkeeps := hk.stepProc (j := j) (c := c) hrefl (fun s₀ s j o c _ hr ho => relay_rely s₀ s j o c hr ho)
    fun _ _ _ _ => trivial
  cases hp : s.procs j with
  | ret a => rw [Sys.stepProc_finished (by rw [hp]; trivial)]; exact ⟨hk, ht1, hh⟩
  | err e => rw [Sys.stepProc_finished (by rw [hp]; trivial)]; exact ⟨hk, ht1, hh⟩
  | call o k =>
    have hens : j = none → relayContract.ensure o s.st := by
      rintro rfl
      exact hk.ensured hp trivial
    have hsweep : j ≠ none → SweepsTier2 o := by
      intro hj
      have huses := hk.2 j hj
      rw [hp] at huses
      exact huses.1
    suffices hrepos : (Repos.exec B j o c s.st).2.snapshots .tier1 = tier1 ∧ Holds tier1 cluster (Repos.exec B j o c s.st).2 by
      have hst : (s.stepProc (repoSem (Option κ) B) j c).st = (Repos.exec B j o c s.st).2 := by
        rw [Sys.stepProc_call hp]
        rfl
      exact ⟨hkeeps, by rw [hst]; exact hrepos.1, by rw [hst]; exact hrepos.2⟩
    rcases snapshots_exec B j o c s.st with ⟨tier, id, rfl⟩ | ⟨y, rfl⟩ | ⟨hsnap, hmig⟩
    · -- only sweeps delete, and only from tier 2
      have hj : j ≠ none := fun hj => hens hj
      have hdel := hsweep hj
      obtain rfl : tier = .tier2 := by
        rcases hdel with h | ⟨o', h⟩
        · exact h
        · cases h
      exact ⟨(relay_rely (B := B) s.st s.st j _ c (hrefl _) hdel).1.trans ht1, hh.delete (hg id k hp)⟩
    · -- only the relay migrates
      have hj : j = none := by
        by_contra hj
        rcases hsweep hj with h | ⟨o', h⟩
        · exact h
        · cases h
      refine ⟨?_, hh.migrate (hens hj) ht1⟩
      rcases exec_migrate B j c s.st y with ⟨-, heq⟩ | heq
      · rw [heq]
        exact ht1
      · rw [heq]
        exact ht1
    · refine ⟨?_, hh.of_same hsnap hmig⟩
      rw [hsnap]
      exact ht1

end Main

/-! ## Content that looks abandoned -/

/-- Two backups on tier 1, of which tier 2 has the newer one. -/
def olderToRelay (tier : Tier) : List Manifest :=
  match tier with
  | .tier1 => [snapshotOf "d1" "older" "pgdata" 1, snapshotOf "m1" "older" "metadata" 1, snapshotOf "m5" "newer" "metadata" 5]
  | .tier2 => [snapshotOf "m5" "newer" "metadata" 5]

/-- The relay in the order of the listing, and a sweep of tier 2. -/
def relayAndSweepSys : RepoSys (Option Unit) :=
  relaySys plainDeps plainCodec plainOutside plainSweepDeps relayInOrder.1 relayInOrder.2 olderToRelay fun _ => Fs.empty

def relaySweepRelay (n k l : ℕ) : RepoSys (Option Unit) :=
  relayAndSweepSys.run (repoSem (Option Unit) (olderAndNewer false))
    (List.replicate n (.step none none) ++ List.replicate k (.step (some ()) none) ++ List.replicate l (.step none none))

def deletesTier2 : RepoProg Unit → Bool
  | .call (.deleteSnapshot .tier2 _) _ => true
  | _ => false

theorem undisturbed_of_quiet {tier1 : List Manifest} {cluster : Name} {s : RepoSys ι} {j : ι} {c : Option Fault}
    (h : deletesTier2 (s.procs j) = false) : Undisturbed tier1 cluster s (.step j c) := by
  intro id k hp
  rw [hp] at h
  cases h

def returned : RepoProg Unit → Bool
  | .ret () => true
  | _ => false

theorem eq_ret_of_returned {p : RepoProg Unit} (h : returned p = true) : p = .ret () := by
  cases p with
  | ret a => rfl
  | err e => cases h
  | call o k => cases h

end Klio
