import Klio.Lib.Rely
import Klio.Proof.Orphans
import Klio.Proof.Tier2Wait

/-!
# What a sweep deletes from tier 1

Before it deletes from tier 1, a sweep looks whether tier 2 has the backup: it lists the metadata
snapshots there, if the policy of the cluster has a part for tier 2. Relays copy the snapshots one by
one while it runs.

* `OnTier2`: the backup is complete on tier 2.
* `sweepContract`: under which conditions the sweep only deletes such backups. The policy has a part
  for tier 2 whenever it has one for tier 1; no relay has left a backup half copied, with its metadata,
  when the sweep lists tier 2; and orphans were not to be relayed.
* `tier1_deletions_synced`: in every interleaving with relays in which they hold.
-/

namespace Klio

open Lib Prog Contract List

variable {ι : Type}

/-- The backup is complete on tier 2: its metadata is there, and every snapshot that tier 1 had of
it. -/
structure OnTier2 (tier1 : List Manifest) (s : Repos ι) (t : HostBackupName) : Prop where
  metadata : ∃ m ∈ s.snapshots .tier2, m.IsMetadata ∧ m.key = t
  content : ∀ m ∈ tier1, m.key = t → m ∈ s.snapshots .tier2

def PolicyAt (K : Codec) (P : Outside) (fs : Fs Name UInt8) (p : Path) (policy : RetentionPolicy) : Prop :=
  ∃ data rd block, fs.read p = some data ∧ Reader.ofContent K p data = .ok rd ∧ (rd.readBlock K).1 = .ok block ∧
    P.unmarshalPolicy block = some policy

/-- The tag of a metadata snapshot names the backup that its content names. -/
def WellTagged (B : Backups) (m : Manifest) : Prop := m.IsMetadata → (B.metadata m.id).name = m.backupName

/-- **What is known of tier 1**: IDs are unique, snapshots have a host, and metadata is well tagged. -/
structure Catalogued (B : Backups) (ms : List Manifest) : Prop where
  ids : ∀ m ∈ ms, ∀ m' ∈ ms, m.id = m'.id → m = m'
  hosts : ∀ m ∈ ms, m.source.host ≠ []
  tagged : ∀ m ∈ ms, WellTagged B m

/-- **The contract of a sweep.** `tier1` is what tier 1 had at the beginning, and `Req` tells for which
backups a relay was requested. The others only copy from tier 1 to tier 2. -/
def sweepContract (K : Codec) (P : Outside) (tier1 : List Manifest) (Req : HostBackupName → Prop) :
    Contract RepoOp (Repos ι) where
  rely s s' := (∀ m ∈ s'.snapshots .tier1, m ∈ s.snapshots .tier1) ∧ (∀ m ∈ s.snapshots .tier2, m ∈ s'.snapshots .tier2) ∧
    ∀ m ∈ s'.snapshots .tier2, m ∈ s.snapshots .tier2 ∨ m ∈ s.snapshots .tier1
  assume o s := match o with
    | .wal .tier1 (.readFile p) => ∀ policy, PolicyAt K P (s.wal .tier1) p policy →
        policy.tier1Policy ≠ none → policy.tier2Policy ≠ none
    | .listSnapshots .tier2 _ => ∀ m ∈ s.snapshots .tier2, m.IsMetadata → Req m.key → OnTier2 tier1 s m.key
    | .listSnapshots .tier1 [] => ∀ m ∈ s.snapshots .tier1, Req m.key →
        (∃ m' ∈ s.snapshots .tier1, m'.IsMetadata ∧ m'.key = m.key) ∨ OnTier2 tier1 s m.key
    | _ => True
  ensure o s := match o with
    | .deleteSnapshot .tier1 id => ∀ m ∈ s.snapshots .tier1, m.id = id → Req m.key → OnTier2 tier1 s m.key
    | _ => True

/-! ## Facts that the others keep -/

section Facts

variable {K : Codec} {P : Outside} {B : Backups} {tier1 : List Manifest} {Req : HostBackupName → Prop} {s s' : Repos ι}

theorem OnTier2.mono {t : HostBackupName} (h : OnTier2 tier1 s t)
    (hsub : ∀ m ∈ s.snapshots .tier2, m ∈ s'.snapshots .tier2) : OnTier2 tier1 s' t := by
  obtain ⟨m, hm, hmeta, hkey⟩ := h.metadata
  exact ⟨⟨m, hsub m hm, hmeta, hkey⟩, fun m' hm' hk => hsub m' (h.content m' hm' hk)⟩

/-- What the sweep knows all along. -/
structure Known (B : Backups) (tier1 : List Manifest) (s : Repos ι) : Prop where
  old : ∀ m ∈ s.snapshots .tier1, m ∈ tier1
  tagged : ∀ m ∈ s.snapshots .tier2, WellTagged B m

/-- What it knows when it deletes the backups `Z`. -/
structure Safe (B : Backups) (tier1 : List Manifest) (Req Z : HostBackupName → Prop) (s : Repos ι) : Prop
    extends Known B tier1 s where
  synced : ∀ t, Z t → Req t → OnTier2 tier1 s t

theorem Known.rely (hcat : Catalogued B tier1) (h : Known B tier1 s) (hr : (sweepContract K P tier1 Req).rely s s') :
    Known B tier1 s' := by
  obtain ⟨h1, -, hnew⟩ := hr
  refine ⟨fun m hm => h.old m (h1 m hm), fun m hm => ?_⟩
  rcases hnew m hm with hm | hm
  · exact h.tagged m hm
  · exact hcat.tagged m (h.old m hm)

theorem Known.exec {o : RepoOp} {c : Option Fault} {i : ι} (hcat : Catalogued B tier1) (h : Known B tier1 s) :
    Known B tier1 (Repos.exec B i o c s).2 := by
  constructor
  · intro m hm
    rcases mem_of_mem_exec hm with hm | ⟨ht, -⟩
    · exact h.old m hm
    · cases ht
  · intro m hm
    rcases mem_of_mem_exec hm with hm | ⟨-, -, hm⟩
    · exact h.tagged m hm
    · exact hcat.tagged m (h.old m hm)

variable {Z : HostBackupName → Prop}

theorem Safe.rely (hcat : Catalogued B tier1) (h : Safe B tier1 Req Z s) (hr : (sweepContract K P tier1 Req).rely s s') :
    Safe B tier1 Req Z s' :=
  ⟨h.toKnown.rely hcat hr, fun t hz hreq => (h.synced t hz hreq).mono hr.2.1⟩

theorem Safe.exec {o : RepoOp} {c : Option Fault} {i : ι} (hcat : Catalogued B tier1) (h : Safe B tier1 Req Z s)
    (ho : ∀ id, o ≠ .deleteSnapshot .tier2 id) : Safe B tier1 Req Z (Repos.exec B i o c s).2 := by
  refine ⟨h.toKnown.exec hcat, fun t hz hreq => (h.synced t hz hreq).mono fun m hm => ?_⟩
  exact (mem_exec_of_mem hm).resolve_right (ho m.id)

end Facts

/-! ## The parts of a sweep of tier 1 -/

section Parts

variable {K : Codec} {P : Outside} {B : Backups} {tier1 : List Manifest} {Req Z : HostBackupName → Prop} {s : Repos ι} {i : ι}

theorem listSnapshots_meets {Q : List Manifest → Repos ι → Prop} {F : Repos ι → Prop} {tier : Tier} {tags : List (Name × Name)}
    (h : ∀ s', (sweepContract K P tier1 Req).rely s s' → (sweepContract K P tier1 Req).assume (.listSnapshots tier tags) s' →
      F s' ∧ Q ((s'.snapshots tier).filter fun m => m.matches tags) s') :
    (sweepContract K P tier1 Req).Meets (repoSem ι B) i Q (fun _ => F) (listSnapshots tier tags) s := by
  intro s' hr ha
  obtain ⟨hF, hQ⟩ := h s' hr ha
  refine ⟨trivial, fun c => ?_⟩
  rw [exec_listSnapshots]
  cases kopiaFault c with
  | none => exact hQ
  | some flag => exact hF

section

variable (hcat : Catalogued B tier1)
include hcat

theorem uses_meets {α : Type} {p : RepoProg α} (hs : Safe B tier1 Req Z s)
    (hp : p.Uses fun o => ∀ tier id, o ≠ .deleteSnapshot tier id) :
    (sweepContract K P tier1 Req).Meets (repoSem ι B) i (fun _ => Safe B tier1 Req Z) (fun _ => Safe B tier1 Req Z) p s := by
  refine meets_uses (P := fun o => ∀ tier id, o ≠ .deleteSnapshot tier id) ?_ (fun s s' h hr => h.rely hcat hr)
    (fun o c s ho h => h.exec hcat (ho .tier2)) hp hs
  intro o s ho
  cases o with
  | deleteSnapshot tier id => exact absurd rfl (ho tier id)
  | _ => trivial

omit hcat in
theorem IsQuery.keeps {o : RepoOp} (h : IsQuery o) (tier : Tier) (id : Name) : o ≠ .deleteSnapshot tier id := by
  rintro rfl
  exact h

omit hcat in
/-- What `GetClusterRetentionPolicy` makes of the file it reads. -/
theorem getClusterRetentionPolicy_cases (K : Codec) (P : Outside) (tier : Tier) (clusterName : Name) :
    ∃ k, onWAL tier (getClusterRetentionPolicy K P clusterName) =
        .call (.wal tier (.readFile (getWALArchivePath clusterName retentionPolicyFileName))) k ∧
      ∀ r : Except FsErr (List UInt8), (∃ e, k r = .err e) ∨ k r = .ret {} ∨ ∃ data rd block policy, r = .ok data ∧
        Reader.ofContent K (getWALArchivePath clusterName retentionPolicyFileName) data = .ok rd ∧
        (rd.readBlock K).1 = .ok block ∧ P.unmarshalPolicy block = some policy ∧ k r = .ret policy := by
  refine ⟨_, rfl, fun r => ?_⟩
  rcases r with e | data
  · -- a file that is not there is no policy, other failures are reported
    cases e <;> first | exact .inr (.inl rfl) | exact .inl ⟨_, rfl⟩
  rcases hrd : Reader.ofContent K (getWALArchivePath clusterName retentionPolicyFileName) data with e | rd
  · simp only [hrd, Prog.attempt, Prog.ret_bind]
    split
    · exact .inr (.inl rfl)
    · exact .inl ⟨e, rfl⟩
  simp only [hrd, Prog.attempt, Prog.ret_bind]
  rcases hblock : (rd.readBlock K).1 with e | block
  · simp only
    split
    · exact .inr (.inl rfl)
    · exact .inl ⟨e, rfl⟩
  cases hpol : P.unmarshalPolicy block with
  | none => exact .inl ⟨_, by simp only [hpol]; rfl⟩
  | some policy =>
    exact .inr (.inr ⟨data, rd, block, policy, rfl, hrd, hblock, hpol, by simp only [hpol]; rfl⟩)

/-- **Reading the policy**: it has a part for tier 2 if it has one for tier 1. -/
theorem policy_meets (hs : Known B tier1 s) (clusterName : Name) :
    (sweepContract K P tier1 Req).Meets (repoSem ι B) i
      (fun policy s => Known B tier1 s ∧ (policy.tier1Policy ≠ none → policy.tier2Policy ≠ none)) (fun _ => Known B tier1)
      (onWAL .tier1 (getClusterRetentionPolicy K P clusterName)) s := by
  obtain ⟨k, heq, hk⟩ := getClusterRetentionPolicy_cases K P .tier1 clusterName
  rw [heq]
  intro s' hr ha
  refine ⟨trivial, fun c => ?_⟩
  have hknown := (hs.rely hcat hr).exec (i := i) (c := c)
    (o := .wal .tier1 (.readFile (getWALArchivePath clusterName retentionPolicyFileName))) hcat
  have hcases := hk (Fs.exec (M := Msg) (.readFile (getWALArchivePath clusterName retentionPolicyFileName)) (ioFault c)
    (s'.wal .tier1)).1
  show Contract.Meets _ _ _ _ _ (k (Fs.exec (M := Msg)
    (.readFile (getWALArchivePath clusterName retentionPolicyFileName)) (ioFault c) (s'.wal .tier1)).1) _
  rcases hcases with ⟨e, hke⟩ | hke | ⟨data, rd, block, policy, hdata, hrd, hblock, hpol, hke⟩
  · rw [hke]
    exact hknown
  · rw [hke]
    exact ⟨hknown, fun h => absurd rfl h⟩
  · rw [hke]
    exact ⟨hknown, ha policy ⟨data, rd, block, Fs.read_of_readFile hdata, hrd, hblock, hpol⟩⟩

/-- The loop of `ListBackups` on tier 2: whatever it returns is one of the backups `Z`. -/
theorem restoreEntries_meets {c : Name} (hc : c ≠ []) (es : List Manifest)
    (hes : ∀ e ∈ es, WellTagged B e ∧ e.IsMetadata ∧ Z e.key) (hs : Safe B tier1 Req Z s) :
    (sweepContract K P tier1 Req).Meets (repoSem ι B) i
      (fun bs s => Safe B tier1 Req Z s ∧ ∀ b ∈ bs, Z ⟨c, b.name⟩) (fun _ => Safe B tier1 Req Z)
      (restoreEntries .tier2 c es) s := by
  induction es generalizing s with
  | nil => exact ⟨hs, fun b hb => absurd hb not_mem_nil⟩
  | cons e es ih =>
    have hes' : ∀ e' ∈ es, WellTagged B e' ∧ e'.IsMetadata ∧ Z e'.key := fun e' he' => hes e' (mem_cons_of_mem _ he')
    unfold restoreEntries
    split
    · exact ih hes' hs
    rename_i hhost
    have hhost' : e.source.host = c := not_not.1 fun h => hhost ⟨hc, h⟩
    obtain ⟨htag, hmeta, hz⟩ := hes e mem_cons_self
    intro s' hr _
    refine ⟨trivial, fun f => ?_⟩
    have hs' := hs.rely hcat hr
    have hexec : (repoSem ι B).exec i (.restoreMetadata .tier2 e.id) f s' =
        ((if (kopiaFault f).isSome ∨ B.unreadable .tier2 e.id ∨ ∀ m ∈ s'.snapshots .tier2, m.id ≠ e.id then .error kopiaFailed
          else .ok (B.metadata e.id) : Except Err BackupMetadata), s') := rfl
    rw [hexec]
    split
    · exact ih hes' hs'
    refine meets_bind (ih hes' hs') ?_
    rintro bs s₁ ⟨hs₁, hbs⟩
    refine ⟨hs₁, fun b hb => ?_⟩
    rcases mem_cons.1 hb with rfl | hb
    · -- the entry names its backup as its tag does
      have hkey : (⟨c, (B.metadata e.id).name⟩ : HostBackupName) = e.key := by
        rw [htag hmeta, ← hhost']
        rfl
      rw [hkey]
      exact hz
    · exact hbs b hb

omit hcat in
theorem Known.safe (h : Known B tier1 s) : Safe B tier1 Req (fun _ => False) s := ⟨h, fun _ hz => hz.elim⟩

/-- **The guard**: what it lets pass is complete on tier 2. -/
theorem protectUnsyncedToTier2_meets {c : Name} (hc : c ≠ []) (candidates : List BackupMetadata)
    (hs : Known B tier1 s) :
    (sweepContract K P tier1 Req).Meets (repoSem ι B) i
      (fun bs s => Safe B tier1 Req (fun t => ∃ b ∈ bs, t = ⟨c, b.name⟩) s) (fun _ => Known B tier1)
      (protectUnsyncedToTier2 c candidates .tier2) s := by
  have hlist : (sweepContract K P tier1 Req).Meets (repoSem ι B) i
      (fun bs s => Safe B tier1 Req (fun t => ∃ b ∈ bs, t = ⟨c, b.name⟩) s) (fun _ => Known B tier1)
      (listBackups .tier2 c) s := by
    refine meets_bind (Q := fun es s => Safe B tier1 Req (fun t => ∃ e ∈ es, e.key = t) s ∧
      ∀ e ∈ es, WellTagged B e ∧ e.IsMetadata) (meets_mapErr (listSnapshots_meets ?_)) ?_
    · intro s' hr ha
      have hs' := hs.rely hcat hr
      refine ⟨hs', ⟨hs', ?_⟩, fun e he => ?_⟩
      · rintro t ⟨e, he, rfl⟩ hreq
        obtain ⟨he, hmatch⟩ := mem_filter.1 he
        exact ha e he ((matches_metadata e).1 hmatch) hreq
      · obtain ⟨he, hmatch⟩ := mem_filter.1 he
        exact ⟨hs'.tagged e he, (matches_metadata e).1 hmatch⟩
    · rintro es s₁ ⟨hs₁, hes⟩
      refine meets_mono ?_ (fun _ _ h => h.toKnown) (restoreEntries_meets hcat hc es
        (fun e he => ⟨(hes e he).1, (hes e he).2, e, he, rfl⟩) hs₁)
      rintro bs s₂ ⟨hs₂, hbs⟩
      refine ⟨hs₂.toKnown, ?_⟩
      rintro t ⟨b, hb, rfl⟩ hreq
      exact hs₂.synced _ (hbs b hb) hreq
  refine meets_bind (meets_mapErr hlist) fun tier2Backups s₁ hs₁ => ⟨hs₁.toKnown, ?_⟩
  rintro t ⟨b, hb, rfl⟩ hreq
  -- a candidate that stays has the name of a backup on tier 2
  have hname := (mem_filter.1 hb).2
  simp only [decide_eq_true_eq, mem_map] at hname
  obtain ⟨b', hb', hname⟩ := hname
  exact hs₁.synced _ ⟨b', hb', by rw [hname]⟩ hreq

theorem deleteSnapshots_meets (es : List Manifest) (hes : ∀ e ∈ es, e ∈ tier1 ∧ Z e.key)
    (hs : Safe B tier1 Req Z s) :
    (sweepContract K P tier1 Req).Meets (repoSem ι B) i (fun _ => Safe B tier1 Req Z) (fun _ => Safe B tier1 Req Z)
      (deleteSnapshots .tier1 es) s := by
  induction es generalizing s with
  | nil => exact hs
  | cons e es ih =>
    intro s' hr _
    have hs' := hs.rely hcat hr
    obtain ⟨he, hz⟩ := hes e mem_cons_self
    constructor
    · intro m hm hid hreq
      have hme : m = e := hcat.ids m (hs'.old m hm) e he hid
      rw [hme] at hreq ⊢
      exact hs'.synced _ hz hreq
    · intro c
      have hexec : Safe B tier1 Req Z (Repos.exec B i (.deleteSnapshot .tier1 e.id) c s').2 := by
        refine hs'.exec hcat ?_
        intro id h
        cases h
      exact meets_bind (ih (fun e' he' => hes e' (mem_cons_of_mem _ he')) hexec) fun _ _ h => h

theorem deleteBackupSnapshots_meets {hostname name : Name} (hz : Z ⟨hostname, name⟩) (n : ℕ)
    (hs : Safe B tier1 Req Z s) :
    (sweepContract K P tier1 Req).Meets (repoSem ι B) i (fun _ => Safe B tier1 Req Z) (fun _ => Safe B tier1 Req Z)
      (deleteBackupSnapshots .tier1 hostname name n) s := by
  induction n generalizing s with
  | zero => exact hs
  | succ n ih =>
    refine meets_bind (Q := fun es s => Safe B tier1 Req Z s ∧ ∀ e ∈ es, e ∈ tier1 ∧ e.backupName = name)
      (meets_mapErr (listSnapshots_meets ?_)) ?_
    · intro s' hr _
      have hs' := hs.rely hcat hr
      refine ⟨hs', hs', fun e he => ?_⟩
      obtain ⟨he, hmatch⟩ := mem_filter.1 he
      exact ⟨hs'.old e he, by simpa [Manifest.matches, Manifest.backupName] using hmatch⟩
    · rintro es s₁ ⟨hs₁, hes⟩
      simp only
      split
      · exact hs₁
      refine meets_bind (deleteSnapshots_meets hcat _ ?_ hs₁) fun errs s₂ hs₂ => ?_
      · intro e he
        obtain ⟨he, hhost⟩ := mem_filter.1 he
        obtain ⟨hmem, hname⟩ := hes e he
        have hkey : e.key = ⟨hostname, name⟩ := by
          unfold Manifest.key
          rw [hname, of_decide_eq_true hhost]
        exact ⟨hmem, hkey ▸ hz⟩
      · split
        · exact hs₂
        · exact ih hs₂

theorem deleteBackups_meets (W : SweepDeps) (ts : List HostBackupName) (hts : ∀ t ∈ ts, Z t)
    (hs : Safe B tier1 Req Z s) :
    (sweepContract K P tier1 Req).Meets (repoSem ι B) i (fun _ => Safe B tier1 Req Z) (fun _ => Safe B tier1 Req Z)
      (deleteBackups W .tier1 ts) s := by
  induction ts generalizing s with
  | nil => exact hs
  | cons t ts ih =>
    refine meets_bind (meets_attempt (Y := fun _ => Safe B tier1 Req Z)
      (deleteBackupSnapshots_meets hcat (hts t mem_cons_self) _ hs)) fun out s₁ hs₁ => ?_
    exact meets_bind (ih (fun t' ht' => hts t' (mem_cons_of_mem _ ht')) hs₁) fun _ _ h => h

theorem known_meets {α : Type} {p : RepoProg α} (hs : Known B tier1 s)
    (hp : p.Uses fun o => ∀ tier id, o ≠ .deleteSnapshot tier id) :
    (sweepContract K P tier1 Req).Meets (repoSem ι B) i (fun _ => Known B tier1) (fun _ => Known B tier1) p s :=
  meets_mono (fun _ _ h => h.toKnown) (fun _ _ h => h.toKnown) (uses_meets hcat hs.safe hp)

/-- **The retention of one cluster** on tier 1. -/
theorem sweepCluster_meets (W : SweepDeps) {c : Name} (hc : c ≠ []) (hs : Known B tier1 s) :
    (sweepContract K P tier1 Req).Meets (repoSem ι B) i (fun _ => Known B tier1) (fun _ => Known B tier1)
      (sweepCluster K P W c (Sweeper.tier1Config ⟨true⟩)) s := by
  refine meets_bind (meets_mapErr (policy_meets hcat hs c)) ?_
  rintro policy s₁ ⟨hs₁, hpol⟩
  split
  · exact hs₁
  rename_i tierPolicy htier
  split
  · exact hs₁
  rename_i evaluator _
  refine meets_bind (meets_mapErr (known_meets hcat hs₁ (uses_mono (fun _ => IsQuery.keeps) (listBackups_uses .tier1 c)))) ?_
  intro backups s₂ hs₂
  split
  · exact hs₂
  -- the policy has a part for tier 2, so that the guard is on
  have hpol2 : policy.tier2Policy ≠ none := by
    refine hpol ?_
    have h : policy.tier1Policy = some tierPolicy := htier
    rw [h]
    exact Option.some_ne_none _
  obtain ⟨tier2Policy, htier2⟩ := Option.ne_none_iff_exists'.1 hpol2
  have hguard : deletionCandidates W c (Sweeper.tier1Config ⟨true⟩) policy evaluator backups =
      (protectUnsyncedToTier2 c (diffByName backups (evaluator.evaluate W backups)) .tier2).mapErr
        (.wrap "while checking tier2 sync status: %w" []) := by
    unfold deletionCandidates
    simp only [htier2]
    rfl
  rw [hguard]
  refine meets_bind (meets_mapErr (protectUnsyncedToTier2_meets hcat hc _ hs₂)) fun toDelete s₃ hs₃ => ?_
  refine meets_mono (fun _ _ h => h.toKnown) (fun _ _ h => h.toKnown) (deleteBackups_meets hcat W _ ?_ hs₃)
  intro t ht
  obtain ⟨b, hb, rfl⟩ := mem_map.1 ht
  exact ⟨b, hb, rfl⟩

/-- **The orphans** of tier 1. -/
theorem sweepOrphans_meets (W : SweepDeps) (hostnames : List Name) (hs : Known B tier1 s) :
    (sweepContract K P tier1 Req).Meets (repoSem ι B) i (fun _ => Known B tier1) (fun _ => Known B tier1)
      (sweepOrphans W (Sweeper.tier1Config ⟨true⟩) hostnames) s := by
  refine meets_bind (Q := fun es s => Safe B tier1 Req (fun t => t ∈ orphanBackupNames es hostnames) s)
    (meets_mapErr (listSnapshots_meets ?_)) fun es s₁ hs₁ => ?_
  · intro s' hr ha
    have hs' := hs.rely hcat hr
    refine ⟨hs', hs', fun t ht hreq => ?_⟩
    obtain ⟨⟨m, hm, rfl⟩, hno⟩ := orphan_spec ht
    -- an orphan has no metadata on tier 1
    rcases ha m (mem_filter.1 hm).1 hreq with ⟨m', hm', hmeta, hkey⟩ | hsynced
    · exact absurd hmeta (hno m' (mem_filter.2 ⟨hm', rfl⟩) hkey)
    · exact hsynced
  · exact meets_mono (fun _ _ h => h.toKnown) (fun _ _ h => h.toKnown)
      (deleteBackups_meets hcat W _ (fun _ ht => ht) hs₁)

omit hcat in
theorem applyWALRetention_keeps (D : Deps) (c : Name) (tc : TierConfig) :
    (applyWALRetention D c tc).Uses fun o => ∀ tier id, o ≠ .deleteSnapshot tier id := by
  refine uses_mono ?_ (applyWALRetention_uses D c tc)
  rintro o (ho | ⟨o', rfl⟩) tier id
  · exact ho.keeps tier id
  · intro h
    cases h

theorem sweepClusters_meets (D : Deps) (W : SweepDeps) (hostnames : List Name)
    (hhosts : ∀ h ∈ hostnames, h ≠ []) (hs : Known B tier1 s) :
    (sweepContract K P tier1 Req).Meets (repoSem ι B) i (fun _ => Known B tier1) (fun _ => Known B tier1)
      (sweepClusters D K P W (Sweeper.tier1Config ⟨true⟩) hostnames) s := by
  induction hostnames generalizing s with
  | nil => exact hs
  | cons h hs' ih =>
    refine meets_bind (meets_attempt (Y := fun _ => Known B tier1)
      (sweepCluster_meets hcat W (hhosts h mem_cons_self) hs)) fun _ s₁ hs₁ => ?_
    refine meets_bind (meets_attempt (Y := fun _ => Known B tier1)
      (known_meets hcat hs₁ (applyWALRetention_keeps D h _))) fun _ s₂ hs₂ => ?_
    exact meets_bind (ih (fun h' hh' => hhosts h' (mem_cons_of_mem _ hh')) hs₂) fun _ _ h => h

omit hcat in
theorem mem_groupHostnames {es : List Manifest} {h : Name} (hh : h ∈ groupHostnames es) : ∃ e ∈ es, e.source.host = h := by
  induction es using reverseRecOn with
  | nil => cases hh
  | append_singleton es e ih =>
    unfold groupHostnames at hh ih
    rw [foldl_append] at hh
    simp only [foldl_cons, foldl_nil] at hh
    have hold : (∃ e' ∈ es, e'.source.host = h) → ∃ e' ∈ es ++ [e], e'.source.host = h := by
      rintro ⟨e', he', heq⟩
      exact ⟨e', mem_append_left _ he', heq⟩
    split at hh
    · exact hold (ih hh)
    · rcases mem_append.1 hh with hh | hh
      · exact hold (ih hh)
      · exact ⟨e, by simp, (mem_singleton.1 hh).symm⟩

/-- **A sweep of tier 1 keeps its contract.** -/
theorem sweepTier1_meets (D : Deps) (W : SweepDeps) (hs : Known B tier1 s) :
    (sweepContract K P tier1 Req).Meets (repoSem ι B) i (fun _ => Known B tier1) (fun _ => Known B tier1)
      (sweepTier D K P W (Sweeper.tier1Config ⟨true⟩)) s := by
  have hlist : (sweepContract K P tier1 Req).Meets (repoSem ι B) i
      (fun hostnames s => Known B tier1 s ∧ ∀ h ∈ hostnames, h ≠ []) (fun _ => Known B tier1)
      (listClusterHostnames .tier1) s := by
    refine meets_bind (Q := fun es s => Known B tier1 s ∧ ∀ e ∈ es, e ∈ tier1) (meets_mapErr (listSnapshots_meets ?_)) ?_
    · intro s' hr _
      have hs' := hs.rely hcat hr
      exact ⟨hs', hs', fun e he => hs'.old e (mem_filter.1 he).1⟩
    · rintro es s₁ ⟨hs₁, hes⟩
      refine ⟨hs₁, fun h hh => ?_⟩
      obtain ⟨e, he, rfl⟩ := mem_groupHostnames hh
      exact hcat.hosts e (hes e he)
  refine meets_bind (meets_mapErr hlist) ?_
  rintro hostnames s₁ ⟨hs₁, hhosts⟩
  refine meets_bind (sweepClusters_meets hcat D W hostnames hhosts hs₁) fun clusters s₂ hs₂ => ?_
  refine meets_bind (meets_attempt (Y := fun _ => Known B tier1) (sweepOrphans_meets hcat W hostnames hs₂)) fun orphans s₃ hs₃ => ?_
  simp only
  split
  · refine known_meets hcat hs₃ ⟨?_, fun _ => trivial⟩
    intro tier id h
    cases h
  · exact hs₃

omit hcat in
theorem sweepTier2_uses (D : Deps) (W : SweepDeps) :
    (sweepTier D K P W tier2Config).Uses fun o => ∀ id, o ≠ .deleteSnapshot .tier1 id := by
  refine uses_mono ?_ (sweepTier_uses D K P W tier2Config)
  rintro o (ho | ⟨o', rfl⟩) id
  · rintro rfl
    cases ho
  · intro h
    cases h

/-- **A whole sweep keeps its contract.** -/
theorem sweep_meets (D : Deps) (W : SweepDeps) (hs : Known B tier1 s) :
    (sweepContract K P tier1 Req).Meets (repoSem ι B) i (fun _ _ => True) (fun _ _ => True)
      (((Sweeper.mk true).sweep D K P W).bind fun _ => .ret ()) s := by
  refine meets_bind (Q := fun _ _ => True) ?_ fun _ _ _ => trivial
  refine meets_bind (meets_attempt (Y := fun _ _ => True) (meets_mono (fun _ _ _ => trivial) (fun _ _ _ => trivial)
    (sweepTier1_meets hcat D W hs))) fun out1 s₁ _ => ?_
  have hsecond : (sweepContract K P tier1 Req).Meets (repoSem ι B) i (fun _ _ => True) (fun _ _ => True)
      (sweepTier D K P W tier2Config) s₁ := by
    refine meets_uses (P := fun o => ∀ id, o ≠ .deleteSnapshot .tier1 id) ?_ (fun _ _ _ _ => trivial)
      (fun _ _ _ _ _ => trivial) (sweepTier2_uses D W) trivial
    intro o s ho
    cases o with
    | deleteSnapshot tier id =>
      cases tier with
      | tier1 => exact absurd rfl (ho id)
      | tier2 => trivial
    | _ => trivial
  exact meets_bind (meets_attempt (Y := fun _ _ => True) hsecond) fun _ _ _ => trivial

end

end Parts

/-! ## Relays -/

/-- What a relay does besides migrating: it asks, verifies and sets a policy. -/
def RelayAsks : RepoOp → Prop
  | .deleteSnapshot _ _ | .wal _ _ | .migrateSnapshot _ => False
  | _ => True

def Relays : RepoOp → Prop
  | .migrateSnapshot _ => True
  | o => RelayAsks o

theorem RelayAsks.relays {o : RepoOp} (h : RelayAsks o) : Relays o := by
  cases o <;> first | exact h | trivial

theorem migrateEach_uses (ms : List Manifest) : (migrateEach ms).Uses Relays := by
  induction ms with
  | nil => trivial
  | cons m ms ih =>
    refine ⟨trivial, fun (r : Except Err Unit) => ?_⟩
    cases r with
    | ok _ => exact ih
    | error e => trivial

theorem listTier1_uses (tags : List (Name × Name)) : (listSnapshots .tier1 tags).Uses RelayAsks :=
  ⟨trivial, fun r => uses_orErr id r⟩

theorem setTier2Compression_uses (task : BackupTask) (entries : List Manifest) :
    (setTier2Compression task entries).Uses RelayAsks := by
  unfold setTier2Compression
  split
  · refine ⟨trivial, fun (r : Except Err Unit) => ?_⟩
    cases r <;> trivial
  · trivial

theorem verifyTier1_uses : verifyTier1.Uses RelayAsks := by
  refine ⟨trivial, fun (r : Except VerifyErr Unit) => ?_⟩
  rcases r with e | _
  · cases e <;> trivial
  · trivial

theorem verifyTier2Backups_uses : verifyTier2Backups.Uses RelayAsks := by
  refine ⟨trivial, fun (r : Except VerifyErr Unit) => ?_⟩
  rcases r with e | _
  · cases e <;> trivial
  · trivial

theorem relayTier2_uses (V : RelayDeps) (task : BackupTask) (entries : List Manifest) :
    (relayTier2 V task entries).Uses Relays := by
  have hasks : ∀ {α : Type} {p : RepoProg α}, p.Uses RelayAsks → p.Uses Relays := fun hp => uses_mono (fun _ => RelayAsks.relays) hp
  refine uses_bind (fun _ => uses_bind (fun _ => hasks verifyTier2Backups_uses) ?_) (hasks (setTier2Compression_uses task entries))
  exact uses_bind (fun entries => migrateEach_uses _) (hasks (uses_mapErr (listTier1_uses _)))

theorem processBackup_uses (V : RelayDeps) (tier2Enabled : Bool) (task : BackupTask) :
    (processBackup V tier2Enabled task).Uses Relays := by
  have hasks : ∀ {α : Type} {p : RepoProg α}, p.Uses RelayAsks → p.Uses Relays := fun hp => uses_mono (fun _ => RelayAsks.relays) hp
  refine uses_bind (fun entries => ?_) (hasks (uses_map (uses_mapErr (listTier1_uses _))))
  split
  · trivial
  refine uses_bind (fun _ => ?_) (hasks verifyTier1_uses)
  unfold relayToTier2IfRequested
  split
  · trivial
  split
  · trivial
  · refine uses_bind (fun _ => ?_) (relayTier2_uses V task entries)
    exact ⟨trivial, fun _ => trivial⟩

/-! ## The sweep among relays -/

section Main

variable {κ : Type} [DecidableEq κ]

/-- One sweep of a server with two tiers, and any number of deliveries of backup tasks. -/
def guardSys (D : Deps) (K : Codec) (P : Outside) (W : SweepDeps) (relays : κ → RelayDeps × BackupTask)
    (snapshots : Tier → List Manifest) (wal : Tier → Fs Name UInt8) : RepoSys (Option κ) :=
  Sys.init { snapshots := snapshots, wal := wal } fun
    | none => ((Sweeper.mk true).sweep D K P W).bind fun _ => .ret ()
    | some j => processBackup (relays j).1 true (relays j).2

/-- **A sweep deletes from tier 1 only what tier 2 has.** In every interleaving of a sweep with relays,
with any faults and crashes, in which the sweep finds the repositories as its contract assumes, every
snapshot it is about to delete from tier 1 belongs to a backup that is complete on tier 2 at that
moment, or that no one has requested there. -/
theorem tier1_deletions_synced (D : Deps) (K : Codec) (P : Outside) (W : SweepDeps) (B : Backups)
    (relays : κ → RelayDeps × BackupTask) (snapshots : Tier → List Manifest) (wal : Tier → Fs Name UInt8)
    (Req : HostBackupName → Prop) (hcat : Catalogued B (snapshots .tier1))
    (htagged : ∀ m ∈ snapshots .tier2, WellTagged B m) (es : List (Ev (Option κ) (Option Fault) (Tier → ℕ → ℕ)))
    (hg : Guarded (repoSem (Option κ) B) (Assumes (sweepContract K P (snapshots .tier1) Req) none)
      (guardSys D K P W relays snapshots wal) es)
    (id : Name) (k : Except Err Unit → RepoProg Unit)
    (hp : ((guardSys D K P W relays snapshots wal).run (repoSem (Option κ) B) es).procs none =
      .call (.deleteSnapshot .tier1 id) k)
    (m : Manifest) (hm : m ∈ ((guardSys D K P W relays snapshots wal).run (repoSem (Option κ) B) es).st.snapshots .tier1)
    (hid : m.id = id) (hreq : Req m.key) :
    OnTier2 (snapshots .tier1) ((guardSys D K P W relays snapshots wal).run (repoSem (Option κ) B) es).st m.key := by
  have hrefl : ∀ s : Repos (Option κ), (sweepContract K P (snapshots .tier1) Req).rely s s :=
    fun s => ⟨fun _ h => h, fun _ h => h, fun _ h => .inl h⟩
  have hother : ∀ (s₀ s : Repos (Option κ)) (j : Option κ) (o : RepoOp) (c : Option Fault), j ≠ none →
      (sweepContract K P (snapshots .tier1) Req).rely s₀ s → Relays o →
        (sweepContract K P (snapshots .tier1) Req).rely s₀ ((repoSem (Option κ) B).exec j o c s).2 := by
    rintro s₀ s j o c - ⟨h1, h2, hnew⟩ ho
    have hkeep : ∀ id, o ≠ .deleteSnapshot .tier2 id := by
      rintro id rfl
      exact ho
    refine ⟨fun m' hm' => ?_, fun m' hm' => ?_, fun m' hm' => ?_⟩
    · rcases mem_of_mem_exec hm' with hm' | ⟨ht, -⟩
      · exact h1 m' hm'
      · cases ht
    · exact (mem_exec_of_mem (h2 m' hm')).resolve_right (hkeep m'.id)
    · rcases mem_of_mem_exec hm' with hm' | ⟨-, -, hm'⟩
      · exact hnew m' hm'
      · exact .inr (h1 m' hm')
  have hknown : Known B (snapshots .tier1) ({ snapshots := snapshots, wal := wal } : Repos (Option κ)) :=
    ⟨fun _ h => h, htagged⟩
  have hstart : ∀ j : Option κ, j ≠ none → ((guardSys D K P W relays snapshots wal).procs j).Uses Relays := by
    intro j hj
    cases j with
    | none => exact absurd rfl hj
    | some j => exact processBackup_uses _ _ _
  have hensured := run_contract (M := repoSem (Option κ) B) hrefl hother (fun _ _ _ h => h)
    (sweep_meets hcat D W hknown) hstart hg hp trivial
  exact hensured m hm hid hreq

end Main

/-! ## Backups that tier 2 does not have -/

def onePolicyOutside (policy : RetentionPolicy) : Outside where
  marshalPolicy p := if p = policy then .ok [1] else .error (.new "unsupported")
  unmarshalPolicy b := if b = [1] then some policy else none
  marshalMetadata := plainOutside.marshalMetadata
  unmarshalMetadata := plainOutside.unmarshalMetadata
  unmarshalCompression := plainOutside.unmarshalCompression
  lsnStartFromWALName := plainOutside.lsnStartFromWALName
  parseLSN := plainOutside.parseLSN
  walFileName := plainOutside.walFileName
  unmarshal_policy p b h := by
    split at h
    · rename_i hp
      cases h
      rw [hp]
      rfl
    · cases h
  unmarshal_metadata := plainOutside.unmarshal_metadata

/-- The WAL repository after the client has set the policy. -/
def policyStored (policy : RetentionPolicy) : Fs Name UInt8 :=
  ((setRetentionPolicy plainDeps plainCodec (onePolicyOutside policy) (fun _ => 0) (.cert "u@c".toList) "c".toList
    (some policy)).eval (sem Unit Name UInt8 Msg) () (fun _ => none) ⟨Fs.empty, []⟩).2.fs

/-- Keep the latest backup on tier 1, and the latest two on tier 2 if there is a policy for it. -/
def latestOnTier1 (tier2 : Bool) : RetentionPolicy := ⟨some ⟨1⟩, if tier2 then some ⟨2⟩ else none⟩

/-- Two backups on tier 1, the older one with a content snapshot. -/
def twoOnTier1 : List Manifest :=
  [snapshotOf "m1" "older" "metadata" 1, snapshotOf "d1" "older" "pgdata" 1, snapshotOf "m5" "newer" "metadata" 5]

def relayInOrder : RelayDeps × BackupTask := (⟨id, fun l => List.Perm.refl l⟩, ⟨"c".toList, true, none⟩)

/-- The sweep and the relay, with some snapshots on tier 2. -/
def twoSys (policy : RetentionPolicy) (tier2 : List Manifest) : RepoSys (Option Unit) :=
  guardSys plainDeps plainCodec (onePolicyOutside policy) plainSweepDeps (fun _ => relayInOrder)
    (fun tier => match tier with
      | .tier1 => twoOnTier1
      | .tier2 => tier2)
    fun tier => match tier with
      | .tier1 => policyStored policy
      | .tier2 => Fs.empty

def relayThenSweep (policy : RetentionPolicy) (tier2 : List Manifest) (n k : ℕ) : RepoSys (Option Unit) :=
  (twoSys policy tier2).run (repoSem (Option Unit) (olderAndNewer false))
    (List.replicate n (.step (some ()) none) ++ List.replicate k (.step none none))

/-- The snapshot that the next operation deletes from tier 1. -/
def nextDeletion : RepoProg Unit → Option Name
  | .call (.deleteSnapshot .tier1 id) _ => some id
  | _ => none

theorem nextDeletion_eq {p : RepoProg Unit} {id : Name} (h : nextDeletion p = some id) :
    ∃ k, p = .call (.deleteSnapshot .tier1 id) k := by
  unfold nextDeletion at h
  split at h
  · cases h
    exact ⟨_, rfl⟩
  · cases h

theorem catalogued_twoOnTier1 : Catalogued (olderAndNewer false) twoOnTier1 where
  ids := by decide
  hosts := by decide
  tagged := by unfold WellTagged; decide

theorem onTier2_twoOnTier1 {s : Repos (Option Unit)} (h : s.snapshots .tier2 = twoOnTier1) {m : Manifest}
    (hm : m ∈ s.snapshots .tier2) (hmeta : m.IsMetadata) : OnTier2 twoOnTier1 s m.key :=
  ⟨⟨m, hm, hmeta, rfl⟩, fun m' hm' _ => by rw [h]; exact hm'⟩

set_option maxRecDepth 20000 in
/-- After the relay, the sweep deletes the older backup from tier 1, and tier 2 has it. -/
theorem tier1_deletion_after_relay :
    OnTier2 twoOnTier1 (relayThenSweep (latestOnTier1 true) [] 8 9).st ⟨"c".toList, "older".toList⟩ := by
  have hquiet : ∀ k, k < 9 → (relayThenSweep (latestOnTier1 true) [] 8 k).st.snapshots .tier1 = twoOnTier1 ∧
      (relayThenSweep (latestOnTier1 true) [] 8 k).st.snapshots .tier2 = twoOnTier1 := by decide +kernel
  have hnext : nextDeletion ((relayThenSweep (latestOnTier1 true) [] 8 9).procs none) = some "m1".toList := by decide +kernel
  obtain ⟨k, hk⟩ := nextDeletion_eq hnext
  have hg : Guarded (repoSem (Option Unit) (olderAndNewer false))
      (Assumes (sweepContract plainCodec (onePolicyOutside (latestOnTier1 true)) twoOnTier1 fun _ => True) none)
      (twoSys (latestOnTier1 true) [])
      (replicate 8 (.step (some ()) none) ++ replicate 9 (.step none none)) := by
    refine (guarded_append _ _).2 ⟨guarded_of_forall fun e he s => ?_, guarded_replicate 9 _ fun j hj _ o k' hp => ?_⟩
    · rw [eq_of_mem_replicate he]
      intro h
      cases h
    have hst := hquiet j hj
    unfold relayThenSweep at hst
    rw [Sys.run_append] at hst
    generalize (((twoSys (latestOnTier1 true) []).run _ _).run _ _).st = s at hst ⊢
    obtain ⟨h1, h2⟩ := hst
    unfold sweepContract
    simp only
    split
    · -- the only policy there is has both parts
      rintro policy ⟨data, rd, block, -, -, -, hpol⟩ _
      simp only [onePolicyOutside] at hpol
      split at hpol
      · cases hpol
        exact Option.some_ne_none _
      · cases hpol
    · intro m hm hmeta _
      exact onTier2_twoOnTier1 h2 hm hmeta
    · intro m hm _
      rw [h1] at hm ⊢
      refine .inl ?_
      revert m
      decide
    · trivial
  exact tier1_deletions_synced plainDeps plainCodec (onePolicyOutside (latestOnTier1 true)) plainSweepDeps
    (olderAndNewer false) (fun _ : Unit => relayInOrder) _ _ (fun _ => True) catalogued_twoOnTier1
    (fun m hm => absurd hm not_mem_nil) _ hg "m1".toList k hk (snapshotOf "m1" "older" "metadata" 1) (by decide +kernel)
    rfl trivial

set_option maxRecDepth 20000 in
/-- The sweep is about to delete the older backup from tier 1. In the first run there is no policy for
tier 2, and nothing of the backup is there; in the second run there is one, and the relay has only
copied the metadata. -/
theorem tier1_deletion_unsynced :
    (nextDeletion ((relayThenSweep (latestOnTier1 false) [] 0 6).procs none) = some "m1".toList ∧
      snapshotOf "m1" "older" "metadata" 1 ∈ (relayThenSweep (latestOnTier1 false) [] 0 6).st.snapshots .tier1 ∧
      ¬ OnTier2 twoOnTier1 (relayThenSweep (latestOnTier1 false) [] 0 6).st ⟨"c".toList, "older".toList⟩) ∧
    nextDeletion ((relayThenSweep (latestOnTier1 true) [] 4 8).procs none) = some "m1".toList ∧
      snapshotOf "m1" "older" "metadata" 1 ∈ (relayThenSweep (latestOnTier1 true) [] 4 8).st.snapshots .tier1 ∧
      ¬ OnTier2 twoOnTier1 (relayThenSweep (latestOnTier1 true) [] 4 8).st ⟨"c".toList, "older".toList⟩ := by
  have hmissing : ∀ s : Repos (Option Unit), snapshotOf "d1" "older" "pgdata" 1 ∉ s.snapshots .tier2 →
      ¬ OnTier2 twoOnTier1 s ⟨"c".toList, "older".toList⟩ :=
    fun s hs h => hs (h.content (snapshotOf "d1" "older" "pgdata" 1) (by decide) (by decide))
  exact ⟨⟨by decide +kernel, by decide +kernel, hmissing _ (by decide +kernel)⟩, by decide +kernel, by decide +kernel,
    hmissing _ (by decide +kernel)⟩

end Klio
