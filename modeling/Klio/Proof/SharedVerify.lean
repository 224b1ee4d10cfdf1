import Klio.Proof.Independence

/-!
# Verifying a repository that clusters share

`processBackup` verifies the repository of a tier, with the cluster as a label: the command gets no object IDs, and
checks the snapshots of every cluster.

* `Damage`, `verifySem`: which snapshots are corrupt, and what the command finds.
* `SameRelay`: the deliveries for a cluster end in the same way in two contents.
* `relay_undisturbed_iff`: when contents that agree on the cluster are such. `damaged_neighbour_stops_relay`: a relay
  that is only stopped by the backup of another cluster.
-/

namespace Klio

open Lib List Repos

variable {ι : Type}

/-! ## What a verification finds -/

/-- Which snapshots of a tier are corrupt. -/
abbrev Damage := Tier → Manifest → Bool

def Damaged (D : Damage) (s : Repos ι) (tier : Tier) : Prop := ∃ m ∈ s.snapshots tier, D tier m = true

instance (D : Damage) (s : Repos ι) (tier : Tier) : Decidable (Damaged D s tier) :=
  inferInstanceAs (Decidable (∃ m ∈ s.snapshots tier, D tier m = true))

/-- What the commands do, with **a verification without object IDs** that checks every snapshot of the repository; one
that meets a fault has no answer. -/
def Repos.execVerify (B : Backups) (D : Damage) (i : ι) : (o : RepoOp) → Option Fault → Repos ι → o.Res × Repos ι
  | .verifySnapshots tier, c, s =>
    ((match kopiaFault c with
      | some _ => .error .infrastructure
      | none => if Damaged D s tier then .error .corrupt else .ok () : Except VerifyErr Unit), s)
  | o, c, s => Repos.exec B i o c s

/-- The repositories, some of whose snapshots are corrupt. -/
def verifySem (ι : Type) (B : Backups) (D : Damage) : Sem ι RepoOp RepoOp.Res (Repos ι) (Option Fault) (Tier → ℕ → ℕ) where
  exec := Repos.execVerify B D
  crash := (repoSem ι B).crash

/-- The contents agree on the snapshots of the cluster. -/
def SameSnapshots (c : Name) (s s' : Repos ι) : Prop :=
  ∀ tier, (s.snapshots tier).filter (ofCluster c) = (s'.snapshots tier).filter (ofCluster c)

/-- A snapshot of the cluster, on tier 2 or copied there by a relay, or one of another cluster, is corrupt on tier 2. -/
def RelayDamaged (c : Name) (D : Damage) (s : Repos ι) : Prop :=
  ∃ m ∈ s.snapshots .tier2 ++ (s.snapshots .tier1).filter (ofCluster c), D .tier2 m = true

instance (c : Name) (D : Damage) (s : Repos ι) : Decidable (RelayDamaged c D s) :=
  inferInstanceAs (Decidable (∃ m ∈ s.snapshots .tier2 ++ (s.snapshots .tier1).filter (ofCluster c), D .tier2 m = true))

/-- **Every delivery for the cluster ends in the same way** in both contents, whatever fails, and leaves the same
snapshots of the cluster on tier 2. -/
def SameRelay (V : RelayDeps) (c : Name) (B : Backups) (D D' : Damage) (s s' : Repos ι) : Prop :=
  ∀ (i : ι) (tier2Enabled : Bool) (task : BackupTask) (cs : ℕ → Option Fault), task.clusterName = c →
    ((processBackup V tier2Enabled task).eval (verifySem ι B D) i cs s).1 =
        ((processBackup V tier2Enabled task).eval (verifySem ι B D') i cs s').1 ∧
      (((processBackup V tier2Enabled task).eval (verifySem ι B D) i cs s).2.snapshots .tier2).filter (ofCluster c) =
        (((processBackup V tier2Enabled task).eval (verifySem ι B D') i cs s').2.snapshots .tier2).filter (ofCluster c)

/-! ## The relay of a cluster in two contents -/

section Beside

variable {c : Name} {B : Backups} {D D' : Damage} {s s' : Repos ι} {i : ι}

theorem SameSnapshots.mem_iff (h : SameSnapshots c s s') {m : Manifest} (hm : m.source.host = c) (tier : Tier) :
    m ∈ s.snapshots tier ↔ m ∈ s'.snapshots tier := by
  have hown : ofCluster c m = true := by simp [ofCluster, hm]
  have hin : ∀ l : List Manifest, m ∈ l ↔ m ∈ l.filter (ofCluster c) := by simp [hown]
  rw [hin (s.snapshots tier), hin (s'.snapshots tier), h tier]

/-- What a migration leaves: tier 1 as it was, and the snapshots on tier 2. -/
structure Relayed (l : List Manifest) (s t : Repos ι) : Prop where
  tier1 : t.snapshots .tier1 = s.snapshots .tier1
  tier2 : ∀ m, m ∈ t.snapshots .tier2 ↔ m ∈ s.snapshots .tier2 ∨ m ∈ l

theorem migrate_tier1 (s : Repos ι) (m : Manifest) : (s.migrate m).snapshots .tier1 = s.snapshots .tier1 := by
  simp [migrate, setSnapshots]

theorem migrate_tier2 (s : Repos ι) (m : Manifest) :
    (s.migrate m).snapshots .tier2 = if m ∈ s.snapshots .tier2 then s.snapshots .tier2 else s.snapshots .tier2 ++ [m] := by
  simp [migrate, setSnapshots]

theorem Relayed.nil (s : Repos ι) : Relayed [] s s := ⟨rfl, by simp⟩

theorem Relayed.cons {m : Manifest} {l : List Manifest} {t : Repos ι} (h : Relayed l (s.migrate m) t) : Relayed (m :: l) s t := by
  refine ⟨h.tier1.trans (migrate_tier1 s m), ?_⟩
  intro x
  rw [h.tier2, migrate_tier2]
  by_cases hm : m ∈ s.snapshots .tier2
  · rw [if_pos hm, mem_cons]
    constructor
    · rintro (hx | hx)
      · exact .inl hx
      · exact .inr (.inr hx)
    · rintro (hx | rfl | hx)
      · exact .inl hx
      · exact .inl hm
      · exact .inr hx
  · simp [hm, or_assoc]

theorem SameSnapshots.migrate (h : SameSnapshots c s s') {m : Manifest} (hm : m.source.host = c) :
    SameSnapshots c (s.migrate m) (s'.migrate m) := by
  intro tier
  cases tier with
  | tier1 => rw [migrate_tier1, migrate_tier1, h .tier1]
  | tier2 =>
    rw [migrate_tier2, migrate_tier2]
    by_cases hin : m ∈ s.snapshots .tier2
    · rw [if_pos hin, if_pos ((h.mem_iff hm .tier2).mp hin), h .tier2]
    · rw [if_neg hin, if_neg fun hin' => hin ((h.mem_iff hm .tier2).mpr hin'), filter_append, filter_append, h .tier2]

abbrev ownSnapshots (c : Name) (s : Repos ι) : List Manifest := (s.snapshots .tier1).filter (ofCluster c)

theorem listSnapshots_beside (h : SameSnapshots c s s') :
    Beside (verifySem ι B D) (verifySem ι B D') i
      (fun l t l' t' => l = s.snapshots .tier1 ∧ l' = s'.snapshots .tier1 ∧ t = s ∧ t' = s') (SameSnapshots c)
      (listSnapshots .tier1 []) (listSnapshots .tier1 []) s s' := by
  refine .call fun f => ?_
  have hexec : ∀ D (s : Repos ι), (verifySem ι B D).exec i (.listSnapshots .tier1 []) f s = _ :=
    fun D s => exec_listSnapshots (B := B) i .tier1 [] f s
  rw [hexec, hexec]
  cases kopiaFault f with
  | some _ => exact .err h
  | none => exact .ret ⟨by simp [Manifest.matches], by simp [Manifest.matches], rfl, rfl⟩

theorem listManifests_beside (h : SameSnapshots c s s') :
    Beside (verifySem ι B D) (verifySem ι B D') i
      (fun l t l' t' => l = ownSnapshots c s ∧ l' = ownSnapshots c s ∧ t = s ∧ t' = s') (SameSnapshots c)
      (listManifests c) (listManifests c) s s' := by
  refine ((listSnapshots_beside h).mapErr _).bind ?_
  rintro l t l' t' ⟨rfl, rfl, rfl, rfl⟩
  exact .ret ⟨rfl, (h .tier1).symm, rfl, rfl⟩

theorem verifyTier1_beside (h : SameSnapshots c s s') (hd : Damaged D s .tier1 ↔ Damaged D' s' .tier1) :
    Beside (verifySem ι B D) (verifySem ι B D') i (fun _ t _ t' => ¬ Damaged D s .tier1 ∧ t = s ∧ t' = s') (SameSnapshots c)
      verifyTier1 verifyTier1 s s' := by
  refine .call fun f => ?_
  dsimp only [verifySem, execVerify]
  cases kopiaFault f with
  | some _ => exact .err h
  | none =>
    by_cases hs : Damaged D s .tier1
    · simp only [if_pos hs, if_pos (hd.mp hs)]
      exact .err h
    · simp only [if_neg hs, if_neg fun hs' => hs (hd.mpr hs')]
      exact .ret ⟨hs, rfl, rfl⟩

theorem verifyTier2Backups_beside (h : SameSnapshots c s s') (hd : Damaged D s .tier2 ↔ Damaged D' s' .tier2) :
    Beside (verifySem ι B D) (verifySem ι B D') i (fun _ t _ t' => SameSnapshots c t t') (SameSnapshots c)
      verifyTier2Backups verifyTier2Backups s s' := by
  refine .call fun f => ?_
  dsimp only [verifySem, execVerify]
  cases kopiaFault f with
  | some _ => exact .ret h
  | none =>
    by_cases hs : Damaged D s .tier2
    · simp only [if_pos hs, if_pos (hd.mp hs)]
      exact .err h
    · simp only [if_neg hs, if_neg fun hs' => hs (hd.mpr hs')]
      exact .ret h

theorem setTier2Compression_beside (h : SameSnapshots c s s') (task : BackupTask) (entries : List Manifest) :
    Beside (verifySem ι B D) (verifySem ι B D') i (fun _ t _ t' => t = s ∧ t' = s') (SameSnapshots c)
      (setTier2Compression task entries) (setTier2Compression task entries) s s' := by
  unfold setTier2Compression
  split
  · refine .call fun f => ?_
    dsimp only [verifySem, execVerify, exec]
    by_cases hf : (kopiaFault f).isSome
    · simp only [if_pos hf]
      exact .err h
    · simp only [if_neg hf]
      exact .ret ⟨rfl, rfl⟩
  · exact .ret ⟨rfl, rfl⟩

/-- **The migration of snapshots of the cluster**, one after the other. -/
theorem migrateEach_beside : ∀ (l : List Manifest) {s s' : Repos ι}, SameSnapshots c s s' → (∀ m ∈ l, m ∈ ownSnapshots c s) →
    Beside (verifySem ι B D) (verifySem ι B D') i (fun _ t _ t' => Relayed l s t ∧ Relayed l s' t' ∧ SameSnapshots c t t')
      (SameSnapshots c) (migrateEach l) (migrateEach l) s s' := by
  intro l
  induction l with
  | nil => exact fun h _ => .ret ⟨.nil _, .nil _, h⟩
  | cons m l ih =>
    intro s s' h hl
    obtain ⟨hin, hown⟩ := mem_filter.mp (hl m mem_cons_self)
    have hhost : m.source.host = c := by simpa [ofCluster] using hown
    have hin' : m ∈ s'.snapshots .tier1 := (h.mem_iff hhost .tier1).mp hin
    refine .call fun f => ?_
    dsimp only [verifySem, execVerify, exec]
    by_cases hf : (kopiaFault f).isSome
    · simp only [hf, true_or, if_true]
      exact .err h
    simp only [hf, hin, hin', not_true]
    have hrest : ∀ x ∈ l, x ∈ ownSnapshots c (s.migrate m) := by
      intro x hx
      exact hl x (mem_cons_of_mem _ hx)
    refine (ih (h.migrate hhost) hrest).mono ?_
    rintro - t - t' ⟨ht, ht', hsame⟩
    exact ⟨ht.cons, ht'.cons, hsame⟩

theorem filter_sources (c : Name) (s : Repos ι) :
    (s.snapshots .tier1).filter (fun m => m.source ∈ (ownSnapshots c s).map Manifest.source) = ownSnapshots c s := by
  refine filter_congr fun m hm => ?_
  by_cases hown : ofCluster c m = true
  · have hmem : m.source ∈ (ownSnapshots c s).map Manifest.source := mem_map_of_mem (mem_filter.mpr ⟨hm, hown⟩)
    simp only [hmem, hown, decide_true]
  have hnot : m.source ∉ (ownSnapshots c s).map Manifest.source := by
    intro hin
    obtain ⟨m', hm', hsource⟩ := mem_map.mp hin
    have hhost := (mem_filter.mp hm').2
    simp only [ofCluster, hsource] at hhost
    exact hown hhost
  simp only [hnot, decide_false, Bool.not_eq_true _ ▸ hown]

theorem Relayed.damaged_iff {l : List Manifest} {t : Repos ι} (h : Relayed l s t) (hl : l.Perm (ownSnapshots c s)) :
    Damaged D t .tier2 ↔ RelayDamaged c D s := by
  simp only [Damaged, RelayDamaged, h.tier2, hl.mem_iff, mem_append]

theorem relayTier2_beside (V : RelayDeps) (task : BackupTask) (h : SameSnapshots c s s')
    (hd : RelayDamaged c D s ↔ RelayDamaged c D' s') :
    Beside (verifySem ι B D) (verifySem ι B D') i (fun _ t _ t' => SameSnapshots c t t') (SameSnapshots c)
      (relayTier2 V task (ownSnapshots c s)) (relayTier2 V task (ownSnapshots c s)) s s' := by
  refine (setTier2Compression_beside h task _).bind ?_
  rintro - t₀ - t₀' ⟨ht₀, ht₀'⟩
  rw [ht₀, ht₀']
  have horder := V.order_perm (ownSnapshots c s)
  have hmigrate : Beside (verifySem ι B D) (verifySem ι B D') i
      (fun _ t _ t' => Relayed (V.order (ownSnapshots c s)) s t ∧ Relayed (V.order (ownSnapshots c s)) s' t' ∧ SameSnapshots c t t')
      (SameSnapshots c) (migrateSnapshots V ((ownSnapshots c s).map Manifest.source))
      (migrateSnapshots V ((ownSnapshots c s).map Manifest.source)) s s' := by
    refine ((listSnapshots_beside h).mapErr _).bind ?_
    rintro l t l' t' ⟨hl, hl', ht, ht'⟩
    rw [hl, hl', ht, ht']
    have hown' := filter_sources c s'
    rw [show ownSnapshots c s' = ownSnapshots c s from (h .tier1).symm] at hown'
    rw [filter_sources, hown']
    exact migrateEach_beside _ h fun m hm => horder.mem_iff.mp hm
  refine hmigrate.bind ?_
  rintro - t - t' ⟨ht, ht', hsame⟩
  refine verifyTier2Backups_beside hsame ?_
  rw [ht.damaged_iff horder, ht'.damaged_iff (horder.trans (.of_eq (h .tier1))), hd]

/-- **A delivery for the cluster**, where each verification that is made finds damage in both contents or in none. -/
theorem processBackup_beside (V : RelayDeps) (tier2Enabled : Bool) (task : BackupTask) (htask : task.clusterName = c)
    (h : SameSnapshots c s s') (hd : ownSnapshots c s = [] ∨ (Damaged D s .tier1 ↔ Damaged D' s' .tier1) ∧
      (Damaged D s .tier1 ∨ (RelayDamaged c D s ↔ RelayDamaged c D' s'))) :
    Beside (verifySem ι B D) (verifySem ι B D') i (fun _ t _ t' => SameSnapshots c t t') (SameSnapshots c)
      (processBackup V tier2Enabled task) (processBackup V tier2Enabled task) s s' := by
  subst htask
  refine (listManifests_beside h).bind ?_
  rintro _ _ _ _ ⟨rfl, rfl, rfl, rfl⟩
  split
  · exact .ret h
  rename_i hown
  obtain ⟨hd₁, hd₂⟩ := hd.resolve_left hown
  refine (verifyTier1_beside h hd₁).bind ?_
  rintro - _ - _ ⟨hclean, rfl, rfl⟩
  unfold relayToTier2IfRequested
  split
  · exact .err h
  split
  · exact .ret h
  · refine (relayTier2_beside V task h (hd₂.resolve_left hclean)).bind ?_
    intro _ t _ t' hsame
    exact .call fun f => .ret hsame

/-! ## A relay without failures -/

theorem eval_migrateEach : ∀ (l : List Manifest) (s : Repos ι), (∀ m ∈ l, m ∈ s.snapshots .tier1) →
    ∃ t, (migrateEach l).eval (verifySem ι B D) i (fun _ => none) s = (.ok (), t) ∧ Relayed l s t := by
  intro l
  induction l with
  | nil => exact fun s _ => ⟨s, rfl, .nil s⟩
  | cons m l ih =>
    intro s hl
    obtain ⟨t, ht, hrel⟩ := ih (s.migrate m) fun x hx => by
      exact hl x (mem_cons_of_mem _ hx)
    refine ⟨t, ?_, hrel.cons⟩
    have hexec : (verifySem ι B D).exec i (.migrateSnapshot m) none s = ((.ok () : Except Err Unit), s.migrate m) :=
      if_neg (by simp [kopiaFault, hl m mem_cons_self])
    simp only [migrateEach, Prog.eval, hexec]
    exact ht

/-- **The verdict on a relay** that meets no other failure. -/
theorem eval_processBackup (V : RelayDeps) (c : Name) (s : Repos ι) :
    ((processBackup V true ⟨c, true, none⟩).eval (verifySem ι B D) i (fun _ => none) s).1 =
      if ownSnapshots c s = [] then .ok ()
      else if Damaged D s .tier1 then .error (.wrap "tier1 verification detected corruption: %w" [] kopiaFailed)
      else if RelayDamaged c D s then .error (.wrap "tier2 verification detected corruption: %w" [] kopiaFailed)
      else .ok () := by
  have hlist : (listSnapshots .tier1 []).eval (verifySem ι B D) i (fun _ => none) s = (.ok (s.snapshots .tier1), s) := by
    show (Except.ok _, s) = _
    simp [Manifest.matches]
  have hmanifests : (listManifests c).eval (verifySem ι B D) i (fun _ => none) s = (.ok (ownSnapshots c s), s) := by
    rw [listManifests, Prog.eval_bind_used, Prog.eval_mapErr, hlist]
    rfl
  obtain ⟨t, ht, hrel⟩ := eval_migrateEach (B := B) (D := D) (i := i) (V.order (ownSnapshots c s)) s
    fun m hm => (mem_filter.mp ((V.order_perm _).mem_iff.mp hm)).1
  have hmigrate : (migrateSnapshots V ((ownSnapshots c s).map Manifest.source)).eval (verifySem ι B D) i (fun _ => none) s =
      (.ok (), t) := by
    rw [migrateSnapshots, Prog.eval_bind_used, Prog.eval_mapErr, hlist]
    show (migrateEach (V.order ((s.snapshots .tier1).filter _))).eval _ i _ s = _
    rw [filter_sources, ht]
  -- the two verifications, one after the other
  have hverify₁ : verifyTier1.eval (verifySem ι B D) i (fun _ => none) s = (if Damaged D s .tier1 then
      .error (.wrap "tier1 verification detected corruption: %w" [] kopiaFailed) else .ok (), s) := by
    by_cases hd : Damaged D s .tier1 <;> simp [verifyTier1, Prog.eval, verifySem, execVerify, kopiaFault, hd]
  have hverify₂ : verifyTier2Backups.eval (verifySem ι B D) i (fun _ => none) t = (if RelayDamaged c D s then
      .error (.wrap "tier2 verification detected corruption: %w" [] kopiaFailed) else .ok (), t) := by
    have hiff := hrel.damaged_iff (D := D) (V.order_perm _)
    by_cases hd : Damaged D t .tier2
    · simp [verifyTier2Backups, Prog.eval, verifySem, execVerify, kopiaFault, hd, hiff.mp hd]
    · have hnot : ¬ RelayDamaged c D s := fun h => hd (hiff.mpr h)
      simp [verifyTier2Backups, Prog.eval, verifySem, execVerify, kopiaFault, hd, hnot]
  rw [processBackup, Prog.eval_bind_used, hmanifests]
  dsimp only
  split
  · rfl
  rw [Prog.eval_bind_used, hverify₁]
  by_cases hone : Damaged D s .tier1
  · simp only [if_pos hone]
  have hrelay : relayToTier2IfRequested V true ⟨c, true, none⟩ (ownSnapshots c s) =
      ((migrateSnapshots V ((ownSnapshots c s).map Manifest.source)).bind fun _ => verifyTier2Backups).bind fun _ =>
        .call (.refreshServer .tier2) fun _ => .ret () := rfl
  simp only [if_neg hone, hrelay, Prog.eval_bind_used, hmigrate, hverify₂]
  split_ifs <;> rfl

end Beside

/-! ## When other clusters do not matter -/

/-- **A delivery does not depend on the other clusters** of contents that agree on its own, and on what of it is corrupt, if
and only if the cluster has no backup, or tier 1 has a corrupt snapshot in both contents, or in neither and tier 2 has one
after the relay in both or in neither. -/
theorem relay_undisturbed_iff [Inhabited ι] (V : RelayDeps) (c : Name) (B : Backups) (D D' : Damage) (s s' : Repos ι)
    (hsnapshots : SameSnapshots c s s') :
    SameRelay V c B D D' s s' ↔ ownSnapshots c s = [] ∨ (Damaged D s .tier1 ↔ Damaged D' s' .tier1) ∧
      (Damaged D s .tier1 ∨ (RelayDamaged c D s ↔ RelayDamaged c D' s')) := by
  constructor
  · intro h
    have hsame := (h default true ⟨c, true, none⟩ (fun _ => none) rfl).1
    rw [eval_processBackup, eval_processBackup, show ownSnapshots c s' = ownSnapshots c s from (hsnapshots .tier1).symm] at hsame
    by_cases hown : ownSnapshots c s = []
    · exact .inl hown
    · simp only [hown, if_false] at hsame
      refine .inr ?_
      split_ifs at hsame <;> simp_all
  · intro hd i tier2Enabled task cs htask
    have hrun := (processBackup_beside (B := B) (i := i) V tier2Enabled task htask hsnapshots hd).eval_eq (fun _ _ _ _ h => ⟨rfl, h⟩) cs
    exact ⟨hrun.1, hrun.2 .tier2⟩

/-- Of these contents, the backups of the cluster `d` are corrupt. -/
def damagedD : Damage := fun _ m => ofCluster "d".toList m

def relayOrder : RelayDeps := ⟨id, fun l => .refl l⟩

theorem backupsOf_same (hosts : List String) (hhosts : hosts = ["c"] ∨ hosts = ["d", "c"]) :
    SameSnapshots "c".toList (backupsOf ["c"]) (backupsOf hosts) := by
  intro tier
  rcases hhosts with rfl | rfl <;> cases tier <;> rfl

/-- A neighbour whose backup is fine does not matter. -/
theorem relay_beside_neighbour :
    SameRelay relayOrder "c".toList twoBackups (fun _ _ => false) (fun _ _ => false) (backupsOf ["c"]) (backupsOf ["d", "c"]) :=
  (relay_undisturbed_iff relayOrder "c".toList twoBackups (fun _ _ => false) (fun _ _ => false) (backupsOf ["c"])
    (backupsOf ["d", "c"]) (backupsOf_same _ (.inr rfl))).mpr
      (.inr ⟨by simp [Damaged], .inr (by simp [RelayDamaged])⟩)

set_option maxRecDepth 20000 in
/-- **The damaged backup of `d` stops the relay of `c`**, whose own is fine. -/
theorem damaged_neighbour_stops_relay :
    SameSnapshots "c".toList (backupsOf ["c"]) (backupsOf ["d", "c"]) ∧
      (∀ tier m, m.source.host = "c".toList → damagedD tier m = false) ∧
      ((processBackup relayOrder true ⟨"c".toList, true, none⟩).eval (verifySem Unit twoBackups damagedD) () (fun _ => none)
        (backupsOf ["c"])).1 = .ok () ∧
      ((processBackup relayOrder true ⟨"c".toList, true, none⟩).eval (verifySem Unit twoBackups damagedD) () (fun _ => none)
        (backupsOf ["d", "c"])).1 = .error (.wrap "tier1 verification detected corruption: %w" [] kopiaFailed) := by
  refine ⟨backupsOf_same _ (.inr rfl), ?_, ?_, ?_⟩
  · intro tier m hm
    rw [damagedD, ofCluster, hm]
    decide
  · rw [eval_processBackup]
    decide
  · rw [eval_processBackup]
    decide

end Klio
