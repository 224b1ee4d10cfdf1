import Klio.Proof.SweepOps

/-!
# Which backups a sweep deletes

* `deletionCandidatesIn_eq`: the candidates on slices are those on lists, and the caller's slice is left alone.
* `evaluate_latest`, `latest_kept_exactly`: keep-latest-N.
-/

namespace Klio

open Lib Prog List

variable {ι : Type}

theorem Slice.entries_of {m : Arrays} {a : ℕ} {l : List BackupMetadata} (h : m[a]? = some l) (offset length : ℕ) :
    Slice.entries m ⟨a, offset, length⟩ = (l.drop offset).take length := by
  simp [Slice.entries, getD_eq_getElem?_getD, h]

theorem evaluateIn_keeps (W : SweepDeps) (p : LatestPolicy) (m : Arrays) (s : Slice) {a : ℕ} (ha : a < m.length) :
    (p.evaluateIn W (s.copy m).1 (s.copy m).2).1[a]? = m[a]? := by
  have happ : (m ++ [s.entries m])[a]? = m[a]? := getElem?_append_left ha
  unfold LatestPolicy.evaluateIn Slice.sortByAscendingTime Slice.copy
  split
  · exact happ
  · rw [getElem?_modify_ne _ _ (Nat.ne_of_gt ha), happ]

/-- On the copy, `Evaluate` returns what the pure function returns. -/
theorem evaluateIn_entries (W : SweepDeps) (p : LatestPolicy) (m : Arrays) (s : Slice) :
    (p.evaluateIn W (s.copy m).1 (s.copy m).2).2.entries (p.evaluateIn W (s.copy m).1 (s.copy m).2).1 =
      p.evaluate W (s.entries m) := by
  unfold LatestPolicy.evaluateIn LatestPolicy.evaluate Slice.copy
  generalize s.entries m = l
  have hlen : (W.sortByAscendingTime l).length = l.length := (W.sort_perm l).length_eq
  have hnew : (m ++ [l])[m.length]? = some l := by simp
  have hcopy : Slice.entries (m ++ [l]) ⟨m.length, 0, l.length⟩ = l := by
    rw [Slice.entries_of hnew, drop_zero, take_length]
  have hsorted : (Slice.sortByAscendingTime W (m ++ [l]) ⟨m.length, 0, l.length⟩)[m.length]? = some (W.sortByAscendingTime l) := by
    rw [Slice.sortByAscendingTime, hcopy, getElem?_modify_eq, hnew]
    simp
  split
  · exact hcopy
  simp only [hlen, Nat.zero_add]
  split
  · rw [Slice.entries_of hsorted, take_of_length_le]
    rw [length_drop, hlen]
    omega
  · rw [Slice.entries_of hsorted, drop_zero, ← hlen, take_length]

/-- **What `Evaluate` keeps**: all entries for a count of zero, or as many of the latest ones. -/
theorem evaluate_latest (W : SweepDeps) (n : ℕ) (l : List BackupMetadata) : ∃ rest,
    l.Perm (rest ++ LatestPolicy.evaluate W ⟨n⟩ l) ∧ (n = 0 → rest = []) ∧
    (0 < n → (LatestPolicy.evaluate W ⟨n⟩ l).length = min n l.length) ∧
    ∀ a ∈ LatestPolicy.evaluate W ⟨n⟩ l, ∀ b ∈ rest, b.startedAt ≤ a.startedAt := by
  have hperm := W.sort_perm l
  have hlen := hperm.length_eq
  unfold LatestPolicy.evaluate
  by_cases hn : n = 0
  · exact ⟨[], by simp [hn]⟩
  simp only [hn, if_false, hlen]
  -- the oldest come first in the sorted list
  refine ⟨(W.sortByAscendingTime l).take (l.length - n), ?_⟩
  by_cases hgt : l.length > n
  · simp only [hgt, if_true]
    refine ⟨by rw [take_append_drop]; exact hperm.symm, fun h => h.elim, fun _ => ?_, ?_⟩
    · rw [length_drop, hlen]
      omega
    · intro a ha b hb
      have hsorted := W.sort_sorted l
      rw [← take_append_drop (l.length - n) (W.sortByAscendingTime l)] at hsorted
      exact (pairwise_append.1 hsorted).2.2 b hb a ha
  · have h0 : l.length - n = 0 := by omega
    simp only [hgt, if_false, h0, take_zero]
    exact ⟨hperm.symm, fun _ => trivial, fun _ => by rw [hlen]; omega, by simp⟩

/-- On slices the candidates are those of the list, and the arrays that were there are as they were. -/
theorem deletionCandidatesIn_eq (W : SweepDeps) (c : Name) (tc : TierConfig) (policy : RetentionPolicy) (p : LatestPolicy)
    {m : Arrays} (backups : Slice) (h : backups.array < m.length) : ∃ m', (∀ a < m.length, m'[a]? = m[a]?) ∧
    backups.entries m' = backups.entries m ∧ deletionCandidatesIn W c tc policy p m backups =
      (deletionCandidates W c tc policy p (backups.entries m)).bind fun toDelete => .ret (m', toDelete) := by
  have hsame := fun a => evaluateIn_keeps W p m backups (a := a)
  have hentries : backups.entries (p.evaluateIn W (backups.copy m).1 (backups.copy m).2).1 = backups.entries m := by
    unfold Slice.entries
    rw [getD_eq_getElem?_getD, getD_eq_getElem?_getD, hsame _ h]
  refine ⟨_, hsame, hentries, ?_⟩
  unfold deletionCandidatesIn deletionCandidates
  simp only [hentries, evaluateIn_entries]
  split <;> rfl

/-- **Keep-latest-N deletes only the oldest backups.** There is a choice `keep` of the latest `n` entries (of
all of them for `n = 0`) such that the candidates are the entries with another name, in the caller's order; with
the guard, those of them that are listed on tier 2. Whatever was in memory is as it was, the caller's slice
included. -/
theorem latest_kept_exactly (W : SweepDeps) (c : Name) (tc : TierConfig) (policy : RetentionPolicy) (n : ℕ) (m : Arrays)
    (array : Fin m.length) (offset length : ℕ) : let backups : Slice := ⟨array, offset, length⟩
    ∃ m' keep rest, (∀ a < m.length, m'[a]? = m[a]?) ∧ backups.entries m' = backups.entries m ∧
    (backups.entries m).Perm (rest ++ keep) ∧ (n = 0 → rest = []) ∧
    (0 < n → keep.length = min n (backups.entries m).length) ∧ (∀ a ∈ keep, ∀ b ∈ rest, b.startedAt ≤ a.startedAt) ∧
    (n = 0 → diffByName (backups.entries m) keep = []) ∧
    ((tc.syncGuardClient = none ∨ policy.tier2Policy = none) →
      deletionCandidatesIn W c tc policy ⟨n⟩ m backups = .ret (m', diffByName (backups.entries m) keep)) ∧
    ∀ client, tc.syncGuardClient = some client → policy.tier2Policy ≠ none →
      ∀ (B : Backups) (i : ι) cs s listed s', (listBackups client c).eval (repoSem ι B) i cs s = (.ok listed, s') →
        (deletionCandidatesIn W c tc policy ⟨n⟩ m backups).eval (repoSem ι B) i cs s =
          (.ok (m', (diffByName (backups.entries m) keep).filter fun b => b.name ∈ listed.map BackupMetadata.name), s') := by
  intro backups
  obtain ⟨m', hsame, hentries, heq⟩ := deletionCandidatesIn_eq W c tc policy ⟨n⟩ backups array.2
  obtain ⟨rest, hperm, hzero, hlen, hold⟩ := evaluate_latest W n (backups.entries m)
  refine ⟨m', _, rest, hsame, hentries, hperm, hzero, hlen, hold, ?_, ?_, ?_⟩
  · rintro rfl
    refine filter_eq_nil_iff.2 fun b hb => ?_
    simpa [LatestPolicy.evaluate] using ⟨b, hb, rfl⟩
  · intro hguard
    rw [heq, deletionCandidates]
    rcases hguard with h | h <;> rw [h]
    · rfl
    · cases tc.syncGuardClient <;> rfl
  · intro client hclient hpolicy B i cs s listed s' hlist
    obtain ⟨p, hp⟩ := Option.ne_none_iff_exists'.1 hpolicy
    rw [heq, deletionCandidates, hclient, hp]
    simp only [protectUnsyncedToTier2, eval_bind_used, eval_mapErr, hlist]
    rfl

end Klio
