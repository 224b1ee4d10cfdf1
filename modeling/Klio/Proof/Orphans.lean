import Klio.Model.Sweep

/-!
# Which backups are orphans

`groupBackupsByHostName` has one group for each backup of an allowed host with a name, and a group is its snapshots
folded (`group_fold`): it has its metadata flag exactly if one of them is a metadata snapshot, and starts with the
earliest of them. So an orphan has snapshots, and none with metadata (`orphan_spec`), and the orphans do not depend on
the order in which snapshots are listed or maps are iterated (`orphans_exactly`).
-/

namespace Klio

open List

/-- The backup a snapshot belongs to. -/
def Manifest.key (m : Manifest) : HostBackupName := ⟨m.source.host, m.backupName⟩

def Counted (allowedHosts : List Name) (m : Manifest) : Prop := m.source.host ∈ allowedHosts ∧ m.backupName ≠ []

variable {key : HostBackupName} {entry : Manifest} {groups : List (HostBackupName × BackupGroup)}

theorem addToGroups_keys : (addToGroups key entry groups).map Prod.fst =
    if key ∈ groups.map Prod.fst then groups.map Prod.fst else groups.map Prod.fst ++ [key] := by
  induction groups with
  | nil => rfl
  | cons g groups ih =>
    unfold addToGroups
    by_cases hg : g.1 = key
    · simp [hg]
    · rw [if_neg hg, map_cons, ih]
      have hne : key ≠ g.1 := Ne.symm hg
      simp only [map_cons, mem_cons, hne, false_or]
      split <;> rfl

theorem mem_addToGroups_of_ne {x : HostBackupName × BackupGroup} (hx : x.1 ≠ key) :
    x ∈ addToGroups key entry groups ↔ x ∈ groups := by
  induction groups with
  | nil =>
    simp only [addToGroups, mem_singleton, not_mem_nil, iff_false]
    rintro rfl
    exact hx rfl
  | cons g groups ih =>
    unfold addToGroups
    by_cases hg : g.1 = key
    · rw [if_pos hg, mem_cons, mem_cons]
      have h1 : x ≠ (key, updateGroup entry (some g.2)) := by rintro rfl; exact hx rfl
      have h2 : x ≠ g := by rintro rfl; exact hx hg
      simp [h1, h2]
    · rw [if_neg hg, mem_cons, mem_cons, ih]

variable {g : BackupGroup}

theorem mem_addToGroups_self (hnd : (groups.map Prod.fst).Nodup)
    (h : (key, g) ∈ addToGroups key entry groups) :
    (∃ g₀, (key, g₀) ∈ groups ∧ g = updateGroup entry (some g₀)) ∨
      key ∉ groups.map Prod.fst ∧ g = updateGroup entry none := by
  induction groups with
  | nil =>
    simp only [addToGroups, mem_singleton, Prod.mk.injEq, true_and] at h
    exact .inr ⟨not_mem_nil, h⟩
  | cons a groups ih =>
    rw [map_cons, nodup_cons] at hnd
    unfold addToGroups at h
    by_cases ha : a.1 = key
    · rw [if_pos ha] at h
      rcases mem_cons.1 h with h | h
      · refine .inl ⟨a.2, mem_cons.2 (.inl ?_), by simpa using h⟩
        rw [← ha]
      · -- the key is only at the head
        have hmem : key ∈ groups.map Prod.fst := mem_map.2 ⟨_, h, rfl⟩
        rw [ha] at hnd
        exact absurd hmem hnd.1
    · rw [if_neg ha] at h
      have hne : (key, g) ≠ a := by rintro rfl; exact ha rfl
      rcases ih hnd.2 ((mem_cons.1 h).resolve_left hne) with ⟨g₀, hg₀, heq⟩ | ⟨hno, heq⟩
      · exact .inl ⟨g₀, mem_cons_of_mem _ hg₀, heq⟩
      refine .inr ⟨?_, heq⟩
      rw [map_cons, mem_cons]
      rintro (h | h)
      · exact ha h.symm
      · exact hno h

structure GroupsOf (hosts : List Name) (entries : List Manifest) (groups : List (HostBackupName × BackupGroup)) : Prop where
  nodup : (groups.map Prod.fst).Nodup
  keys : ∀ k, k ∈ groups.map Prod.fst ↔ ∃ m ∈ entries, Counted hosts m ∧ m.key = k
  hasMetadata : ∀ k g, (k, g) ∈ groups → (g.hasMetadata = true ↔ ∃ m ∈ entries, m.key = k ∧ m.IsMetadata)

variable {hosts : List Name} {entries : List Manifest}

theorem Counted.of_key {m m' : Manifest} (h : Counted hosts m) (hkey : m'.key = m.key) : Counted hosts m' := by
  obtain ⟨h1, h2⟩ := HostBackupName.mk.injEq .. ▸ hkey
  exact ⟨h1 ▸ h.1, h2 ▸ h.2⟩

instance : DecidablePred (Counted hosts) := fun _ => inferInstanceAs (Decidable (_ ∧ _))

theorem group_append (entries : List Manifest) (entry : Manifest) :
    groupBackupsByHostName (entries ++ [entry]) hosts = if Counted hosts entry then
      addToGroups entry.key entry (groupBackupsByHostName entries hosts) else groupBackupsByHostName entries hosts := by
  have hskip : (entry.source.host ∉ hosts ∨ entry.backupName = []) ↔ ¬ Counted hosts entry := by
    unfold Counted
    tauto
  unfold groupBackupsByHostName
  simp only [foldl_append, foldl_cons, foldl_nil, hskip, ite_not]
  rfl

theorem group_keys (hosts : List Name) (entries : List Manifest) : ((groupBackupsByHostName entries hosts).map Prod.fst).Nodup ∧
    ∀ k, k ∈ (groupBackupsByHostName entries hosts).map Prod.fst ↔ ∃ m ∈ entries, Counted hosts m ∧ m.key = k := by
  induction entries using reverseRecOn with
  | nil => simp [groupBackupsByHostName]
  | append_singleton entries entry ih =>
    obtain ⟨hnd, hkeys⟩ := ih
    have hmem : ∀ k, (∃ m ∈ entries ++ [entry], Counted hosts m ∧ m.key = k) ↔
        k ∈ (groupBackupsByHostName entries hosts).map Prod.fst ∨ (Counted hosts entry ∧ entry.key = k) := by
      intro k
      rw [hkeys]
      simp only [mem_append, mem_singleton, or_and_right, exists_or, exists_eq_left]
    rw [group_append]
    split
    · rename_i hc
      rw [addToGroups_keys]
      split <;> grind
    · grind

/-- **A group is the fold of its snapshots.** -/
theorem group_fold {k : HostBackupName} (h : (k, g) ∈ groupBackupsByHostName entries hosts) :
    (entries.filter (·.key = k)).foldl (fun g m => some (updateGroup m g)) none = some g := by
  induction entries using reverseRecOn generalizing g with
  | nil => simp [groupBackupsByHostName] at h
  | append_singleton entries entry ih =>
    obtain ⟨hnd, hkeys⟩ := group_keys hosts entries
    rw [group_append] at h
    by_cases hk : entry.key = k
    · subst hk
      have hc : Counted hosts entry := by
        by_contra hc
        rw [if_neg hc] at h
        obtain ⟨m, -, hm, hk⟩ := (hkeys _).1 (mem_map.2 ⟨_, h, rfl⟩)
        exact hc (hm.of_key hk.symm)
      rw [if_pos hc] at h
      rcases mem_addToGroups_self hnd h with ⟨g₀, hg₀, rfl⟩ | ⟨hno, rfl⟩
      · simp [ih hg₀]
      · have hnil : entries.filter (·.key = entry.key) = [] := by
          refine filter_eq_nil_iff.2 fun m hm hk => hno ((hkeys _).2 ⟨m, hm, ?_, of_decide_eq_true hk⟩)
          exact hc.of_key (of_decide_eq_true hk)
        simp [hnil]
    · have hmem : (k, g) ∈ groupBackupsByHostName entries hosts := by
        split at h
        · exact (mem_addToGroups_of_ne (Ne.symm hk)).1 h
        · exact h
      simpa [hk] using ih hmem

/-- **What a fold of snapshots is**: the flag of its metadata, and its earliest start. -/
theorem fold_group {l : List Manifest} (h : l.foldl (fun g m => some (updateGroup m g)) none = some g) :
    (g.hasMetadata = true ↔ ∃ m ∈ l, m.IsMetadata) ∧ ((∀ m ∈ l, m.startTime ≠ 0) →
      (∃ m ∈ l, m.startTime = g.startTime) ∧ ∀ m ∈ l, g.startTime ≤ m.startTime) := by
  induction l using reverseRecOn generalizing g with
  | nil => cases h
  | append_singleton l m ih =>
    rw [foldl_append] at h
    obtain rfl : updateGroup m _ = g := Option.some.inj h
    rcases hg : l.foldl (fun g m => some (updateGroup m g)) none with _ | g
    · have hnil : l = [] := by
        rcases eq_nil_or_concat l with rfl | ⟨l, m, rfl⟩
        · rfl
        · simp at hg
      simp [hnil, updateGroup]
    obtain ⟨hmeta, hstart⟩ := ih hg
    refine ⟨by simp [updateGroup, hmeta, or_and_right, exists_or], fun hpos => ?_⟩
    obtain ⟨⟨m₀, hm₀, heq⟩, hle⟩ := hstart fun m hm => hpos m (mem_append_left _ hm)
    have h0 : g.startTime ≠ 0 := heq ▸ hpos m₀ (mem_append_left _ hm₀)
    simp only [updateGroup, Option.getD_some, h0, false_or]
    grind

/-- **What `groupBackupsByHostName` returns.** -/
theorem groupsOf_group (hosts : List Name) (entries : List Manifest) :
    GroupsOf hosts entries (groupBackupsByHostName entries hosts) := by
  refine ⟨(group_keys hosts entries).1, (group_keys hosts entries).2, fun k g hg => ?_⟩
  rw [(fold_group (group_fold hg)).1]
  simp [and_assoc]

/-- **An orphan has snapshots, and no metadata among them.** -/
theorem orphan_spec {t : HostBackupName} (ht : t ∈ orphanBackupNames entries hosts) :
    (∃ m ∈ entries, m.key = t) ∧ ∀ m ∈ entries, m.key = t → ¬ m.IsMetadata := by
  obtain ⟨⟨k, g⟩, hg, rfl⟩ := mem_map.1 ht
  obtain ⟨hg, hcond⟩ := mem_filter.1 hg
  have hgroups := groupsOf_group hosts entries
  have hno : ¬ g.hasMetadata = true := by
    rw [Bool.and_eq_true] at hcond
    simpa using hcond.1
  obtain ⟨m, hm, -, hk⟩ := (hgroups.keys k).1 (mem_map.2 ⟨_, hg, rfl⟩)
  exact ⟨⟨m, hm, hk⟩, fun m' hm' hk' hmeta => hno ((hgroups.hasMetadata k g hg).2 ⟨m', hm', hk', hmeta⟩)⟩

/-! ## Exactness -/

/-- `orphanBackupNames` with the orders in which its two loops go over the map of the groups. -/
def orphansInOrder (first second : List (HostBackupName × BackupGroup)) : List HostBackupName :=
  (second.filter fun g => !g.2.hasMetadata && match latestCompletedStartTime first g.1.host with
    | none => false
    | some completedAfter => decide (g.2.startTime < completedAfter)).map Prod.fst

theorem lt_latestCompletedStartTime (groups : List (HostBackupName × BackupGroup)) (host : Name) (s : ℤ) :
    (∃ t, latestCompletedStartTime groups host = some t ∧ s < t) ↔
      ∃ g ∈ groups, g.2.hasMetadata = true ∧ g.1.host = host ∧ s < g.2.startTime := by
  induction groups using reverseRecOn with
  | nil => simp [latestCompletedStartTime]
  | append_singleton groups g ih =>
    unfold latestCompletedStartTime at ih ⊢
    rw [foldl_append, foldl_cons, foldl_nil]
    simp only [mem_append, mem_singleton, or_and_right, exists_or, exists_eq_left, ← ih]
    split
    · cases groups.foldl _ none with
      | none => grind
      | some t => grind
    · grind

def EarliestStart (entries : List Manifest) (k : HostBackupName) (t : ℤ) : Prop :=
  IsLeast {t | ∃ m ∈ entries, m.key = k ∧ m.startTime = t} t

theorem group_earliestStart (hpos : ∀ m ∈ entries, m.startTime ≠ 0) {k : HostBackupName}
    (hg : (k, g) ∈ groupBackupsByHostName entries hosts) : EarliestStart entries k g.startTime := by
  obtain ⟨⟨m, hm, heq⟩, hle⟩ := (fold_group (group_fold hg)).2 fun m hm => hpos m (mem_filter.1 hm).1
  obtain ⟨hm, hk⟩ := mem_filter.1 hm
  refine ⟨⟨m, hm, of_decide_eq_true hk, heq⟩, ?_⟩
  rintro t ⟨m', hm', hk', rfl⟩
  exact hle m' (mem_filter.2 ⟨hm', decide_eq_true hk'⟩)

/-- **Orphans, exactly.** Whatever the orders in which the snapshots are listed and the groups iterated, the orphans are
the backups with a name, of an allowed host, without metadata, that started before another one of the host with
metadata did. -/
theorem orphans_exactly (hosts : List Name) (entries : List Manifest) (hpos : ∀ m ∈ entries, m.startTime ≠ 0)
    {entries' : List Manifest} (hperm : entries'.Perm entries) {first second : List (HostBackupName × BackupGroup)}
    (hfirst : first.Perm (groupBackupsByHostName entries' hosts)) (hsecond : second.Perm (groupBackupsByHostName entries' hosts)) :
    (orphansInOrder first second).Nodup ∧ ∀ k, k ∈ orphansInOrder first second ↔
      (k.name ≠ [] ∧ k.host ∈ hosts ∧ (∃ m ∈ entries, m.key = k) ∧ (∀ m ∈ entries, m.key = k → ¬ m.IsMetadata) ∧
        ∃ k' s t, k' ≠ k ∧ k'.host = k.host ∧ (∃ m ∈ entries, m.key = k' ∧ m.IsMetadata) ∧
          k'.name ≠ [] ∧ EarliestStart entries k s ∧ EarliestStart entries k' t ∧ s < t) := by
  obtain ⟨hnd, hkeys⟩ := group_keys hosts entries'
  have hpos' : ∀ m ∈ entries', m.startTime ≠ 0 := fun m hm => hpos m (hperm.mem_iff.1 hm)
  have hcond : ∀ g : HostBackupName × BackupGroup, (!g.2.hasMetadata && match latestCompletedStartTime first g.1.host with
      | none => false
      | some completedAfter => decide (g.2.startTime < completedAfter)) = true ↔ ¬ g.2.hasMetadata = true ∧
        ∃ g' ∈ first, g'.2.hasMetadata = true ∧ g'.1.host = g.1.host ∧ g.2.startTime < g'.2.startTime := by
    intro g
    rw [← lt_latestCompletedStartTime]
    cases latestCompletedStartTime first g.1.host <;> simp
  refine ⟨(((hsecond.map _).nodup_iff.2 hnd).sublist (filter_sublist.map _)), fun k => ?_⟩
  simp only [orphansInOrder, mem_map, mem_filter, hcond, hsecond.mem_iff, hfirst.mem_iff, Prod.exists]
  simp only [EarliestStart, ← hperm.mem_iff]
  constructor
  · rintro ⟨k, g, ⟨hg, hno, k', g', hg', hmeta, hhost, hlt⟩, rfl⟩
    obtain ⟨m, hm, hc, rfl⟩ := (hkeys k).1 (mem_map.2 ⟨_, hg, rfl⟩)
    obtain ⟨m', hm', hc', rfl⟩ := (hkeys k').1 (mem_map.2 ⟨_, hg', rfl⟩)
    have hall := (groupsOf_group hosts entries').hasMetadata
    rw [hall _ _ hg] at hno
    rw [hall _ _ hg'] at hmeta
    refine ⟨hc.2, hc.1, ⟨m, hm, rfl⟩, fun m hm hk h => hno ⟨m, hm, hk, h⟩, m'.key, g.startTime, g'.startTime, ?_, hhost, hmeta,
      hc'.2, group_earliestStart hpos' hg, group_earliestStart hpos' hg', hlt⟩
    intro heq
    exact hno (heq ▸ hmeta)
  · rintro ⟨hname, hhost, ⟨m, hm, rfl⟩, hno, k', s, t, -, hsame, ⟨m', hm', rfl, hmeta⟩, hname', hs, ht, hlt⟩
    have hgroup : ∀ m ∈ entries', Counted hosts m → ∃ g, (m.key, g) ∈ groupBackupsByHostName entries' hosts := by
      intro m hm hc
      obtain ⟨⟨k, g⟩, hg, rfl⟩ := mem_map.1 ((hkeys _).2 ⟨m, hm, hc, rfl⟩)
      exact ⟨g, hg⟩
    obtain ⟨g, hg⟩ := hgroup m hm ⟨hhost, hname⟩
    obtain ⟨g', hg'⟩ := hgroup m' hm' ⟨by rw [show m'.source.host = m.source.host from hsame]; exact hhost, hname'⟩
    have hall := (groupsOf_group hosts entries').hasMetadata
    refine ⟨m.key, g, ⟨hg, ?_, m'.key, g', hg', ?_, hsame, ?_⟩, rfl⟩
    · rw [hall _ _ hg]
      rintro ⟨m, hm, hk, h⟩
      exact hno m hm hk h
    · exact (hall _ _ hg').2 ⟨m', hm', rfl, hmeta⟩
    · rw [(group_earliestStart hpos' hg).unique hs, (group_earliestStart hpos' hg').unique ht]
      exact hlt

/-- A backup without metadata, and a completed one after it. -/
def abandoned : List Manifest :=
  [⟨[], ⟨"c".toList, [], []⟩, 1, [("tag:".toList ++ backupNameTagName, "a".toList)]⟩,
    ⟨[], ⟨"c".toList, [], []⟩, 2, [("tag:".toList ++ backupNameTagName, "b".toList), ("tag:".toList ++ backupContentTagName, metadataContent)]⟩]

theorem orphans_exactly_abandoned : orphanBackupNames abandoned ["c".toList] = [⟨"c".toList, "a".toList⟩] ∧
    (orphanBackupNames abandoned ["c".toList]).Nodup :=
  ⟨by decide, (orphans_exactly ["c".toList] abandoned (by decide) (.refl _) (.refl _) (.refl _)).1⟩

end Klio
