import Klio.Model.Sweep
import Klio.Proof.Prune
import Klio.Proof.PutFrame

/-!
# Retention of the WAL files that backups need

`applyWALRetention` takes the oldest start among the backups it can read, and removes the segments
before it. A backup whose metadata cannot be restored does not count (nor does one without a start),
so a segment that only such a backup needs is removed. `wal_retention_keeps_iff` says when all needed
segments stay, whatever fails in the WAL repository.
-/

namespace Klio

open Lib Prog Function

variable {ι : Type} {B : Backups} {tier : Tier} {cluster : Name}

/-! ## The oldest start -/

theorem olderWAL_spec (acc : Name) (b : BackupMetadata) :
    (olderWAL acc b = acc ∨ olderWAL acc b = b.startWAL) ∧
      (acc ≠ [] → olderWAL acc b ≠ [] ∧ olderWAL acc b ≤ acc) ∧
      (b.startWAL ≠ [] → olderWAL acc b ≠ [] ∧ olderWAL acc b ≤ b.startWAL) := by
  unfold olderWAL
  split
  · rename_i hb
    exact ⟨.inl rfl, fun h => ⟨h, le_rfl⟩, fun h => absurd hb h⟩
  rename_i hb
  split
  · rename_i hlt
    exact ⟨.inr rfl, fun h => ⟨hb, (hlt.resolve_left h).le⟩, fun h => ⟨h, le_rfl⟩⟩
  · rename_i hlt
    obtain ⟨hacc, hle⟩ := not_or.1 hlt
    exact ⟨.inl rfl, fun h => ⟨h, le_rfl⟩, fun _ => ⟨hacc, not_lt.1 hle⟩⟩

theorem foldl_olderWAL (bs : List BackupMetadata) (acc : Name) :
    (bs.foldl olderWAL acc = acc ∨ ∃ b ∈ bs, b.startWAL = bs.foldl olderWAL acc) ∧
      (acc ≠ [] → bs.foldl olderWAL acc ≠ [] ∧ bs.foldl olderWAL acc ≤ acc) ∧
      ∀ b ∈ bs, b.startWAL ≠ [] → bs.foldl olderWAL acc ≠ [] ∧ bs.foldl olderWAL acc ≤ b.startWAL := by
  induction bs generalizing acc with
  | nil => exact ⟨.inl rfl, fun h => ⟨h, le_rfl⟩, nofun⟩
  | cons a bs ih =>
    rw [List.foldl_cons]
    obtain ⟨hone, hacc, ha⟩ := olderWAL_spec acc a
    obtain ⟨hmem, hle, hall⟩ := ih (olderWAL acc a)
    refine ⟨?_, ?_, ?_⟩
    · rcases hmem with hmem | ⟨b, hb, hmem⟩
      · rw [hmem]
        exact hone.imp_right fun h => ⟨a, List.mem_cons_self, h.symm⟩
      · exact .inr ⟨b, List.mem_cons_of_mem _ hb, hmem⟩
    · intro h
      obtain ⟨h1, h2⟩ := hle (hacc h).1
      exact ⟨h1, h2.trans (hacc h).2⟩
    · intro b hb h
      rcases List.mem_cons.1 hb with rfl | hb
      · obtain ⟨h1, h2⟩ := hle (ha h).1
        exact ⟨h1, h2.trans (ha h).2⟩
      · exact hall b hb h

/-- **What `findOldestWAL` finds**: the least of the starts, if there is one. -/
theorem findOldestWAL_spec (bs : List BackupMetadata) :
    (findOldestWAL bs ≠ [] → ∃ b ∈ bs, b.startWAL = findOldestWAL bs) ∧
      ∀ b ∈ bs, b.startWAL ≠ [] → findOldestWAL bs ≠ [] ∧ findOldestWAL bs ≤ b.startWAL := by
  obtain ⟨hmem, -, hall⟩ := foldl_olderWAL bs []
  exact ⟨fun hne => hmem.resolve_left hne, hall⟩

/-! ## The backups that are read -/

/-- No Kopia command fails. -/
def KopiaWorks (cs : ℕ → Option Fault) : Prop := ∀ n, kopiaFault (cs n) = none

variable {cs : ℕ → Option Fault}

theorem KopiaWorks.shift (h : KopiaWorks cs) (n : ℕ) : KopiaWorks fun k => cs (k + n) :=
  fun k => h (k + n)

/-- An entry `ListBackups` returns the metadata of. -/
def isRead (B : Backups) (tier : Tier) (hostname : Name) (m : Manifest) : Bool :=
  decide (hostname = [] ∨ m.source.host = hostname) && !B.unreadable tier m.id

/-- What `ListBackups` returns when no command fails. -/
def readBackups (B : Backups) (s : Repos ι) (tier : Tier) (hostname : Name) : List BackupMetadata :=
  ((s.snapshots tier).filter fun m => m.matches [(backupContentTagName, metadataContent)] && isRead B tier hostname m).map
    fun m => B.metadata m.id

theorem matches_metadata (m : Manifest) :
    m.matches [(backupContentTagName, metadataContent)] = true ↔ m.IsMetadata := by
  simp [Manifest.matches, Manifest.IsMetadata]

variable (i : ι) {s : Repos ι}

theorem eval_restoreEntries {hostname : Name} : ∀ (es : List Manifest) (cs : ℕ → Option Fault),
    (∀ m ∈ es, m ∈ s.snapshots tier) → KopiaWorks cs →
      (restoreEntries tier hostname es).eval (repoSem ι B) i cs s =
        (.ok ((es.filter (isRead B tier hostname)).map fun m => B.metadata m.id), s) := by
  intro es
  induction es with
  | nil => intro cs _ _; rfl
  | cons m es ih =>
    intro cs hes hcs
    have hrest := fun cs' => ih cs' fun x hx => hes x (List.mem_cons_of_mem _ hx)
    unfold restoreEntries
    split
    · -- a snapshot of another cluster
      rename_i hskip
      have hno : isRead B tier hostname m = false := by simp [isRead, hskip.1, hskip.2]
      rw [List.filter_cons_of_neg (by rw [hno]; decide)]
      exact hrest cs hcs
    · rename_i hhost
      have hhost' : hostname = [] ∨ m.source.host = hostname := by tauto
      have hfound : ¬ ∀ x ∈ s.snapshots tier, x.id ≠ m.id := fun h => h m (hes m List.mem_cons_self) rfl
      cases hun : B.unreadable tier m.id with
      | true =>
        have hans : (repoSem ι B).exec i (.restoreMetadata tier m.id) (cs 0) s = (.error kopiaFailed, s) := by
          simp [repoSem, Repos.exec, hun]
        have hno : isRead B tier hostname m = false := by simp [isRead, hun]
        rw [List.filter_cons_of_neg (by rw [hno]; decide)]
        simp only [Prog.eval, hans]
        exact hrest _ (hcs.shift 1)
      | false =>
        have hans : (repoSem ι B).exec i (.restoreMetadata tier m.id) (cs 0) s = (.ok (B.metadata m.id), s) := by
          simp only [repoSem, Repos.exec, hcs 0, hun]
          simp [hfound]
        have hyes : isRead B tier hostname m = true := by simp [isRead, hun, hhost']
        rw [List.filter_cons_of_pos hyes]
        simp only [Prog.eval, hans]
        obtain ⟨n, hn⟩ := eval_bind (M := repoSem ι B) i
          (fun result => Prog.ret (B.metadata m.id :: result)) (restoreEntries tier hostname es) (fun k => cs (k + 1)) s
        rw [hn, hrest _ (hcs.shift 1)]
        rfl

theorem eval_listSnapshots (tags : List (Name × Name)) (hcs : KopiaWorks cs) :
    (listSnapshots tier tags).eval (repoSem ι B) i cs s = (.ok ((s.snapshots tier).filter fun m => m.matches tags), s) := by
  have hans : (repoSem ι B).exec i (.listSnapshots tier tags) (cs 0) s =
      (.ok ((s.snapshots tier).filter fun m => m.matches tags), s) := by
    simp only [repoSem, Repos.exec, hcs 0]
  simp only [listSnapshots, Prog.eval, hans]
  rfl

/-- **`ListBackups` returns what can be read**, and changes nothing. -/
theorem eval_listBackups (hostname : Name) (hcs : KopiaWorks cs) :
    (listBackups tier hostname).eval (repoSem ι B) i cs s = (.ok (readBackups B s tier hostname), s) := by
  obtain ⟨n, hn⟩ := eval_bind (M := repoSem ι B) i (restoreEntries tier hostname)
    ((listSnapshots tier [(backupContentTagName, metadataContent)]).mapErr (.wrap "while executing Kopia command: %w" [])) cs s
  unfold listBackups
  rw [hn, eval_mapErr, eval_listSnapshots i _ hcs]
  simp only [Except.mapError]
  rw [eval_restoreEntries i _ _ (fun m hm => (List.mem_filter.1 hm).1) (hcs.shift n), List.filter_filter]
  unfold readBackups
  simp only [Bool.and_comm]

theorem mem_readBackups {hostname : Name} {b : BackupMetadata} :
    b ∈ readBackups B s tier hostname ↔ ∃ m ∈ s.snapshots tier, m.IsMetadata ∧
      (hostname = [] ∨ m.source.host = hostname) ∧ B.unreadable tier m.id = false ∧ B.metadata m.id = b := by
  unfold readBackups isRead
  simp only [List.mem_map, List.mem_filter, Bool.and_eq_true, matches_metadata, decide_eq_true_eq, Bool.not_eq_true']
  constructor
  · rintro ⟨m, ⟨hm, hmeta, hhost, hun⟩, rfl⟩
    exact ⟨m, hm, hmeta, hhost, hun, rfl⟩
  · rintro ⟨m, hm, hmeta, hhost, hun, rfl⟩
    exact ⟨m, ⟨hm, hmeta, hhost, hun⟩, rfl⟩

theorem eval_onWAL {α : Type} (p : FsProg Msg α) (cs : ℕ → Option Fault) (s : Repos ι) :
    (onWAL tier p).eval (repoSem ι B) i cs s =
      ((p.eval (sem ι Name UInt8 Msg) i (fun n => ioFault (cs n)) ⟨s.wal tier, s.log tier⟩).1,
        { s with
          wal := update s.wal tier
            (p.eval (sem ι Name UInt8 Msg) i (fun n => ioFault (cs n)) ⟨s.wal tier, s.log tier⟩).2.fs
          log := update s.log tier
            (p.eval (sem ι Name UInt8 Msg) i (fun n => ioFault (cs n)) ⟨s.wal tier, s.log tier⟩).2.log }) := by
  induction p generalizing cs s with
  | ret a => simp only [onWAL, Prog.eval, update_eq_self]
  | err e => simp only [onWAL, Prog.eval, update_eq_self]
  | call o k ih =>
    have h := ih (Fs.exec o (ioFault (cs 0)) (s.wal tier)).1 (fun n => cs (n + 1))
      { s with
        wal := update s.wal tier (Fs.exec o (ioFault (cs 0)) (s.wal tier)).2
        log := update s.log tier (logOp i (ioFault (cs 0)) (s.log tier) o) }
    simp only [update_self, update_idem] at h
    exact h

theorem retainWALOf_cases (D : Deps) (cluster : Name) (tier : Tier) (backups : List BackupMetadata) :
    (findOldestWAL backups ≠ [] ∧ walFileRE (findOldestWAL backups) = true ∧ retainWALOf D cluster tier backups =
        onWAL tier (setFirstRequiredOnCluster D cluster (findOldestWAL backups))) ∨
      (¬ (findOldestWAL backups ≠ [] ∧ walFileRE (findOldestWAL backups) = true) ∧
        (retainWALOf D cluster tier backups).Finished) := by
  unfold retainWALOf validateWalFileName
  by_cases hempty : backups = []
  · rw [if_pos hempty, hempty]
    exact .inr ⟨fun h => h.1 rfl, trivial⟩
  rw [if_neg hempty]
  by_cases hold : findOldestWAL backups = []
  · rw [if_pos hold]
    exact .inr ⟨fun h => h.1 hold, trivial⟩
  rw [if_neg hold]
  by_cases hre : walFileRE (findOldestWAL backups) = true
  · simp only [if_pos hre]
    exact .inl ⟨hold, hre, trivial⟩
  · simp only [if_neg hre]
    exact .inr ⟨fun h => hre h.2, trivial⟩

/-- **What `applyWALRetention` does** to the WAL repository: nothing, or what
`SetFirstRequiredOnCluster` does with the oldest start that was read. -/
theorem eval_applyWALRetention {D : Deps} (cluster : Name) {tc : TierConfig}
    (hwal : tc.walRepository = true) (cs : ℕ → Option Fault) (hcs : KopiaWorks cs) :
    ∃ n, (((applyWALRetention D cluster tc).eval (repoSem ι B) i cs s).2.wal tc.tier) =
      if findOldestWAL (readBackups B s tc.tier cluster) ≠ [] ∧
          walFileRE (findOldestWAL (readBackups B s tc.tier cluster)) = true then
        ((setFirstRequiredOnCluster D cluster (findOldestWAL (readBackups B s tc.tier cluster))).eval
          (sem ι Name UInt8 Msg) i (fun k => ioFault (cs (k + n))) ⟨s.wal tc.tier, s.log tc.tier⟩).2.fs
      else s.wal tc.tier := by
  obtain ⟨n, hn⟩ := eval_bind (M := repoSem ι B) i (retainWALOf D cluster tc.tier)
    ((listBackups tc.tier cluster).mapErr (.wrap "while listing backups: %w" [])) cs s
  refine ⟨n, ?_⟩
  unfold applyWALRetention
  simp only [hwal, Bool.not_true, Bool.false_eq_true, if_false]
  rw [hn, eval_mapErr, eval_listBackups i cluster hcs]
  simp only [Except.mapError]
  rcases retainWALOf_cases D cluster tc.tier (readBackups B s tc.tier cluster) with ⟨hne, hre, heq⟩ | ⟨hno, hfin⟩
  · rw [if_pos ⟨hne, hre⟩, heq, eval_onWAL]
    simp only [update_self]
  rw [if_neg hno]
  cases hp : retainWALOf D cluster tc.tier (readBackups B s tc.tier cluster) with
  | ret a => rfl
  | err e => rfl
  | call o k => rw [hp] at hfin; exact hfin.elim

/-! ## Needed segments -/

/-- The backup of the metadata snapshot `m`, on the tier, needs the segment `w`. -/
structure Needs (B : Backups) (s : Repos ι) (tier : Tier) (cluster : Name) (m : Manifest) (w : Name) : Prop where
  present : m ∈ s.snapshots tier
  completed : m.IsMetadata
  host : m.source.host = cluster
  segment : IsSegment w
  start : (B.metadata m.id).startWAL ≤ w

/-- The segment, or a part of it, is stored. -/
def InArchive (fs : Fs Name UInt8) (cluster w : Name) : Prop :=
  ∃ n, IsFileOf w n ∧ fs.look (getWALArchivePath cluster n) ≠ none

/-- `o` is the oldest start among the backups that can be read and have one. -/
structure OldestRead (B : Backups) (s : Repos ι) (tier : Tier) (cluster o : Name) : Prop where
  start : o ≠ []
  read : ∃ m ∈ s.snapshots tier, m.IsMetadata ∧ (cluster = [] ∨ m.source.host = cluster) ∧
    B.unreadable tier m.id = false ∧ (B.metadata m.id).startWAL = o
  least : ∀ m ∈ s.snapshots tier, m.IsMetadata → (cluster = [] ∨ m.source.host = cluster) →
    B.unreadable tier m.id = false → (B.metadata m.id).startWAL ≠ [] → o ≤ (B.metadata m.id).startWAL

theorem oldestRead_iff {o : Name} :
    OldestRead B s tier cluster o ↔ o ≠ [] ∧ findOldestWAL (readBackups B s tier cluster) = o := by
  obtain ⟨hmem, hall⟩ := findOldestWAL_spec (readBackups B s tier cluster)
  have hle : ∀ m ∈ s.snapshots tier, m.IsMetadata → (cluster = [] ∨ m.source.host = cluster) →
      B.unreadable tier m.id = false → (B.metadata m.id).startWAL ≠ [] →
      findOldestWAL (readBackups B s tier cluster) ≠ [] ∧
        findOldestWAL (readBackups B s tier cluster) ≤ (B.metadata m.id).startWAL := by
    intro m hm hmeta hhost hun hne
    exact hall _ (mem_readBackups.2 ⟨m, hm, hmeta, hhost, hun, rfl⟩) hne
  constructor
  · intro h
    obtain ⟨m, hm, hmeta, hhost, hun, ho⟩ := h.read
    have hfound := hle m hm hmeta hhost hun (by rw [ho]; exact h.start)
    obtain ⟨b, hb, hstart⟩ := hmem hfound.1
    obtain ⟨m', hm', hmeta', hhost', hun', rfl⟩ := mem_readBackups.1 hb
    refine ⟨h.start, le_antisymm (by rw [← ho]; exact hfound.2) ?_⟩
    rw [← hstart]
    exact h.least m' hm' hmeta' hhost' hun' (by rw [hstart]; exact hfound.1)
  · rintro ⟨hne, ho⟩
    obtain ⟨b, hb, hstart⟩ := hmem (by rw [ho]; exact hne)
    obtain ⟨m, hm, hmeta, hhost, hun, rfl⟩ := mem_readBackups.1 hb
    refine ⟨hne, ⟨m, hm, hmeta, hhost, hun, hstart.trans ho⟩, ?_⟩
    intro m' hm' hmeta' hhost' hun' hne'
    rw [← ho]
    exact (hle m' hm' hmeta' hhost' hun' hne').2

/-- The WAL repository of the tier after one run of `applyWALRetention`. -/
def walAfter (D : Deps) (B : Backups) (i : ι) (cluster : Name) (tc : TierConfig) (cs : ℕ → Option Fault) (s : Repos ι) :
    Fs Name UInt8 :=
  ((applyWALRetention D cluster tc).eval (repoSem ι B) i cs s).2.wal tc.tier

/-- **When WAL retention keeps what backups need.** One run, whatever fails in the WAL repository,
leaves every stored segment in place that some backup on the tier needs, exactly if no stored segment
that is needed by a backup whose metadata is skipped (it cannot be restored, or names no start)
precedes the oldest start that is read. -/
theorem wal_retention_keeps_iff (D : Deps) (B : Backups) (s : Repos ι) (i : ι) (cluster : Name) (tc : TierConfig)
    (hwal : tc.walRepository = true) (hroot : Rooted (s.wal tc.tier)) :
    (∀ cs, KopiaWorks cs → ∀ m w, Needs B s tc.tier cluster m w → ∀ n, IsFileOf w n →
        (s.wal tc.tier).look (getWALArchivePath cluster n) ≠ none →
        (s.wal tc.tier).Same (walAfter D B i cluster tc cs s) (getWALArchivePath cluster n)) ↔
      ∀ m w, Needs B s tc.tier cluster m w → InArchive (s.wal tc.tier) cluster w →
        (B.unreadable tc.tier m.id = true ∨ (B.metadata m.id).startWAL = []) →
        ∀ o, OldestRead B s tc.tier cluster o → walFileRE o = true → ¬ w < o := by
  constructor
  · -- nothing failing, a stored segment before the oldest start is removed
    intro hkeep m w hneeds hstored _ o hold hre hlt
    obtain ⟨n, hn, hlook⟩ := hstored
    obtain ⟨hne, ho⟩ := oldestRead_iff.1 hold
    have hsame := hkeep (fun _ => none) (fun _ => rfl) m w hneeds n hn hlook
    obtain ⟨k, hafter⟩ := eval_applyWALRetention (D := D) (B := B) (s := s) i cluster hwal (fun _ => none) fun _ => rfl
    have hgone : (walAfter D B i cluster tc (fun _ => none) s).look (getWALArchivePath cluster n) = none := by
      unfold walAfter
      rw [hafter, ho, if_pos ⟨hne, hre⟩]
      exact setFirstRequired_removes i cluster hneeds.segment hn hlt hre hroot
    exact hlook (hsame.1.symm.trans hgone)
  · intro hcond cs hcs m w hneeds n hn hlook
    obtain ⟨k, hafter⟩ := eval_applyWALRetention (D := D) (s := s) i cluster hwal cs hcs
    unfold walAfter
    rw [hafter]
    split
    · rename_i h
      obtain ⟨hne, hre⟩ := h
      have hold : OldestRead B s tc.tier cluster (findOldestWAL (readBackups B s tc.tier cluster)) :=
        oldestRead_iff.2 ⟨hne, rfl⟩
      -- the backup was read, and then its start bounds the oldest one; or it was skipped
      have hnlt : ¬ w < findOldestWAL (readBackups B s tc.tier cluster) := by
        by_cases hskip : B.unreadable tc.tier m.id = true ∨ (B.metadata m.id).startWAL = []
        · exact hcond m w hneeds ⟨n, hn, hlook⟩ hskip _ hold hre
        · obtain ⟨hun, hstart⟩ := not_or.1 hskip
          have hle := hold.least m hneeds.present hneeds.completed (.inr hneeds.host)
            (Bool.eq_false_iff.2 hun) hstart
          exact not_lt.2 (hle.trans hneeds.start)
      exact setFirstRequired_keeps i cluster cluster hneeds.segment hn hnlt _ _
    · exact Fs.Same.refl _ _

/-! ## One unreadable backup -/

/-- A snapshot of the cluster `c`. -/
def snapshotOf (id name content : String) (startTime : ℤ) : Manifest :=
  ⟨id.toList, ⟨"c".toList, "klio".toList, content.toList⟩, startTime,
    [("tag:klio.io/tag".toList, name.toList), ("tag:klio.io/content".toList, content.toList)]⟩

/-- Two backups, the older of which needs the first segment and may be unreadable. -/
def olderAndNewer (unreadable : Bool) : Backups where
  metadata id :=
    if id = "m1".toList then ⟨"older".toList, "000000010000000000000001".toList, 1⟩
    else ⟨"newer".toList, "000000010000000000000005".toList, 5⟩
  unreadable _ id := unreadable && id == "m1".toList

/-- Both are on tier 1, with the first segment. -/
def olderAndNewerStored : Repos Unit where
  snapshots tier := match tier with
    | .tier1 => [snapshotOf "m1" "older" "metadata" 1, snapshotOf "m5" "newer" "metadata" 5]
    | .tier2 => []
  wal tier := match tier with
    | .tier1 => segmentStored
    | .tier2 => Fs.empty

theorem rooted_of_lists {fs : Fs Name UInt8} (hfiles : ∀ x ∈ fs.files, fs.IsDir x.1.dropLast)
    (hdirs : ∀ d ∈ fs.dirs, fs.IsDir d.dropLast) : Rooted fs := by
  rintro p (hp | hp)
  · obtain ⟨j, hj⟩ := Option.ne_none_iff_exists'.1 hp
    exact hfiles _ (Fs.look_eq_some.1 hj)
  · exact hdirs p hp

set_option maxRecDepth 10000 in
theorem rooted_segmentStored : Rooted segmentStored :=
  rooted_of_lists (by decide +kernel) (by decide +kernel)

/-- With both readable, the segment stays. -/
theorem wal_retention_keeps_older :
    segmentStored.Same (walAfter plainDeps (olderAndNewer false) () "c".toList (Sweeper.tier1Config ⟨false⟩) (fun _ => none)
      olderAndNewerStored) (getWALArchivePath "c".toList "000000010000000000000001".toList) := by
  refine (wal_retention_keeps_iff plainDeps (olderAndNewer false) olderAndNewerStored () "c".toList
    (Sweeper.tier1Config ⟨false⟩) rfl rooted_segmentStored).2 ?_ (fun _ => none) (fun _ => rfl) (snapshotOf "m1" "older" "metadata" 1)
    "000000010000000000000001".toList ⟨by decide, by decide, rfl, by decide, by decide⟩ _ (.inl rfl) (by decide +kernel)
  intro m w hneeds _ hskip
  have hm : m = snapshotOf "m1" "older" "metadata" 1 ∨ m = snapshotOf "m5" "newer" "metadata" 5 := by
    simpa [olderAndNewerStored, Sweeper.tier1Config] using hneeds.present
  rcases hskip with hun | hempty
  · cases hun
  · rcases hm with rfl | rfl <;> exact absurd hempty (by decide)

set_option maxRecDepth 10000 in
/-- With the older one unreadable, the segment it needs is removed. -/
theorem wal_retention_removes_needed :
    Needs (olderAndNewer true) olderAndNewerStored .tier1 "c".toList (snapshotOf "m1" "older" "metadata" 1)
        "000000010000000000000001".toList ∧
      segmentStored.look (getWALArchivePath "c".toList "000000010000000000000001".toList) ≠ none ∧
      (walAfter plainDeps (olderAndNewer true) () "c".toList (Sweeper.tier1Config ⟨false⟩) (fun _ => none)
        olderAndNewerStored).look (getWALArchivePath "c".toList "000000010000000000000001".toList) = none :=
  ⟨⟨by decide, by decide, rfl, by decide, by decide⟩, by decide +kernel, by decide +kernel⟩

end Klio
